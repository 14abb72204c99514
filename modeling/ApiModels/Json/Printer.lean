/-
ApiModels.Json.Printer — values as JSON text in plain ASCII.

A text is written from left to right, a pair as a list of its parts. Where
a value has no JSON form, writing stops; the part written so far is then
the result, with the cause. Dates, bytes and sets have none, save in a
layout that has texts to stand for them; as keys they have none anywhere.
Neither has a whole number of too many digits, nor a list or an object
inside itself.
-/
import ApiModels.Text.Letter
import ApiModels.Value.Shape

namespace ApiModels.Json

variable {τ : Type}

/-- A text that ends before a value that has no JSON form. -/
structure Unfinished where
  written : String
  cause : Failure

/-- The text written so far, unless writing has stopped. -/
abbrev Writing := Except Unfinished String

/-- How a document is laid out. -/
structure Layout (τ : Type) where
  /-- Spaces per level, each item on a line of its own; without it all stands on one line. -/
  indent : Option Nat
  /-- The text that stands for a date, for bytes or for a set. -/
  tell : Value τ → Result String

/-- One line, `", "` between items and `": "` after keys; every value stands for itself. -/
def Layout.line : Layout τ := ⟨none, fun _ => .error .wrongShape⟩

/-- Two spaces per level; values are told that do not stand for themselves. -/
def Layout.indented : Layout String := ⟨some 2, Value.told⟩

/-- A unit of sixteen bits as an escape. -/
def unitEscape (n : Nat) : List Char :=
  '\\' :: 'u' :: Text.hexDigits 4 n

/-- One character inside a JSON string; beyond the first plane as two surrogate units. -/
def escapeChar (c : Char) : List Char :=
  let n := c.toNat
  if c == '"' then ['\\', '"']
  else if c == '\\' then ['\\', '\\']
  else if c == '\n' then ['\\', 'n']
  else if c == '\r' then ['\\', 'r']
  else if c == '\t' then ['\\', 't']
  else if n == 0x08 then ['\\', 'b']
  else if n == 0x0C then ['\\', 'f']
  else if 0x20 ≤ n && n ≤ 0x7E then [c]
  else if n < 0x10000 then unitEscape n
  else unitEscape (0xD800 + (n - 0x10000) / 0x400) ++ unitEscape (0xDC00 + (n - 0x10000) % 0x400)

/-- One letter inside a JSON string. -/
def escape : Letter → List Char
  | .char c => escapeChar c
  | .high n => unitEscape (0xD800 + n)
  | .low n => unitEscape (0xDC00 + n)

variable [Spelled τ]

/-- A text as a JSON string. -/
def string (s : τ) : String :=
  String.ofList ('"' :: ((Spelled.letters s).flatMap escape ++ ['"']))

/-- The JSON form of a scalar, if it has one and is no pair. -/
def scalar : Scalar τ → Result String
  | .null => .ok "null"
  | .bool b => .ok (if b then "true" else "false")
  | .int n => if Number.isTooLong n then .error (.tooManyDigits none) else .ok (toString n)
  | .float x => .ok (DecimalStyle.document.write x)
  | .text s => .ok (string s)
  | .date _ | .bytes _ | .pair _ _ => .error .wrongShape

/-- A key: a text, or the JSON form of another scalar as a text. -/
def key : Scalar τ → Result String
  | .text s => .ok (string s)
  | s => (scalar s).map string

/-- A line break and the indentation of a level, where the layout has them. -/
def Layout.lineBreak (layout : Layout τ) (level : Nat) : String :=
  match layout.indent with
  | none => ""
  | some width => "\n" ++ String.ofList (List.replicate (width * level) ' ')

/-- What stands between two items. -/
def Layout.separator (layout : Layout τ) (level : Nat) : String :=
  match layout.indent with
  | none => ", "
  | some _ => "," ++ layout.lineBreak level

/-- A scalar in a layout that may have texts to stand for it. -/
def Layout.scalar (layout : Layout τ) : Scalar τ → Result String
  | .date d => (layout.tell (.scalar (.date d))).map string
  | .bytes bs => (layout.tell (.scalar (.bytes bs))).map string
  | s => Json.scalar s

/-- Writes a part that may have no JSON form. -/
def write (out : String) (part : Result String) : Writing :=
  match part with
  | .ok t => .ok (out ++ t)
  | .error cause => .error ⟨out, cause⟩

/-- The mark before a scalar, which stands only together with a number. -/
def writeMark (out mark : String) : Scalar τ → Writing
  | .int n => if Number.isTooLong n then .error ⟨out, .tooManyDigits none⟩ else .ok (out ++ mark)
  | _ => .ok (out ++ mark)

/-- The mark before an item. -/
def writeMarkOf (out mark : String) : Value τ → Writing
  | .scalar s => writeMark out mark s
  | _ => .ok (out ++ mark)

/-- Writes a scalar after `out`. -/
def writeScalar (layout : Layout τ) (level : Nat) (out : String) : Scalar τ → Writing
  | .pair a b => do
    let out ← writeMark out ("[" ++ layout.lineBreak (level + 1)) a
    let out ← writeScalar layout (level + 1) out a
    let out ← writeMark out (layout.separator (level + 1)) b
    let out ← writeScalar layout (level + 1) out b
    .ok (out ++ layout.lineBreak level ++ "]")
  | s => write out (layout.scalar s)

mutual

/-- Writes a value after `out`. `around` are the numbers of those that may come again. -/
def writeValue (layout : Layout τ) (around : List Nat) (level : Nat) (out : String) :
    Value τ → Writing
  | .scalar s => writeScalar layout level out s
  | .list [] => .ok (out ++ "[]")
  | .list (v :: vs) => do
    let out ← writeMarkOf out ("[" ++ layout.lineBreak (level + 1)) v
    let out ← writeValue layout around (level + 1) out v
    let out ← writeItems layout around (level + 1) out vs
    .ok (out ++ layout.lineBreak level ++ "]")
  | .object [] => .ok (out ++ "\x7b\x7d")
  | .object (m :: ms) => do
    let start := out ++ "\x7b" ++ layout.lineBreak (level + 1)
    let out ← writeMember layout around (level + 1) start "" m
    let out ← writeMembers layout around (level + 1) out ms
    .ok (out ++ layout.lineBreak level ++ "\x7d")
  | .pair a b => do
    let out ← writeMarkOf out ("[" ++ layout.lineBreak (level + 1)) a
    let out ← writeValue layout around (level + 1) out a
    let out ← writeMarkOf out (layout.separator (level + 1)) b
    let out ← writeValue layout around (level + 1) out b
    .ok (out ++ layout.lineBreak level ++ "]")
  | .set ss => write out ((layout.tell (.set ss)).map string)
  | .knot n v =>
    if around.contains n then .error ⟨out, .circular⟩
    else writeValue layout (n :: around) level out v

/-- Writes further items, each after a separator. -/
def writeItems (layout : Layout τ) (around : List Nat) (level : Nat) (out : String) :
    List (Value τ) → Writing
  | [] => .ok out
  | v :: vs => do
    let out ← writeMarkOf out (layout.separator level) v
    let out ← writeValue layout around level out v
    writeItems layout around level out vs

/-- Writes a separator and a member; a key that has no JSON form stops before the separator. -/
def writeMember (layout : Layout τ) (around : List Nat) (level : Nat) (out separator : String) :
    Scalar τ × Value τ → Writing
  | (k, v) =>
    match key k with
    | .ok t => writeValue layout around level (out ++ separator ++ t ++ ": ") v
    | .error cause => .error ⟨out, cause⟩

/-- Writes further members, each after a separator. -/
def writeMembers (layout : Layout τ) (around : List Nat) (level : Nat) (out : String) :
    Members τ → Writing
  | [] => .ok out
  | m :: ms => do
    let out ← writeMember layout around level out (layout.separator level) m
    writeMembers layout around level out ms

end

/-- The JSON text of a value, or the part before a value that has none. -/
def print (layout : Layout τ) (v : Value τ) : Writing :=
  writeValue layout [] 0 "" v

end ApiModels.Json
