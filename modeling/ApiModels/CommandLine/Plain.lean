/-
ApiModels.CommandLine.Plain — what is printed of a text that would steer a
terminal.

A control sequence is an escape, a bracket, parameters and a letter; it is
left out. A command is an escape, a closing bracket, parameters and a bell;
it is left out too, unless it is one that sets the terminal's title, which
cannot be done. Commands are found in the text as it is, but cut out one
after another where they were, although the text has become shorter: after
the first cut, others hit what has moved into their places.

Main definition: `printed`, the text that is printed for a text.
-/
import ApiModels.Failure
import ApiModels.Text.DecimalDigit
import ApiModels.Text.Split

namespace ApiModels.CommandLine

/-- The character that starts a sequence or a command. -/
def escapeMark : Char := '\x1b'

/-- The character that ends a command. -/
def bell : Char := '\x07'

/-- A mark of width zero that may stand before an escape. -/
def openingMark : Char := '\x01'

/-- A mark of width zero that may stand after a sequence or a command. -/
def closingMark : Char := '\x02'

/-- One if a text starts with a character, else zero. -/
def startsWith (c : Char) (cs : List Char) : Nat :=
  if cs.head? == some c then 1 else 0

/-! ## Control sequences -/

/-- The length of the control sequence that a text starts with. -/
def sequenceLength? (isParameter : Char → Bool) (cs : List Char) : Option Nat :=
  match cs with
  | e :: '[' :: rest =>
    match e == escapeMark, rest.dropWhile isParameter with
    | true, c :: _ => if c.isAlpha then some (3 + (rest.takeWhile isParameter).length) else none
    | _, _ => none
  | _ => none

/-- The length of a control sequence that may stand between marks. -/
def markedSequenceLength? (isParameter : Char → Bool) (cs : List Char) : Option Nat :=
  let opening := startsWith openingMark cs
  (sequenceLength? isParameter (cs.drop opening)).map fun n =>
    opening + n + startsWith closingMark (cs.drop (opening + n))

/-- A text without the parts that start where `length?` tells a length; `skip` lie in one. -/
def withoutParts (length? : List Char → Option Nat) (skip : Nat) : List Char → List Char
  | [] => []
  | c :: cs =>
    match skip with
    | skip + 1 => withoutParts length? skip cs
    | 0 =>
      match length? (c :: cs) with
      | some (n + 1) => withoutParts length? n cs
      | _ => c :: withoutParts length? 0 cs

/-- A parameter of a sequence, in digits of ASCII. -/
def isPlainParameter (c : Char) : Bool := c == ';' || c == '?' || c.isDigit

/-- A parameter of a sequence, in digits of any script. -/
def isDigitParameter (c : Char) : Bool := c == ';' || (Text.decimalDigit? c).isSome

/-! ## Commands -/

/-- A command in a text: where it starts, how long it is, and its parameters. -/
structure TerminalCommand where
  start : Nat
  length : Nat
  parameters : List Char

/-- The length and the parameters of the command that a text starts with. -/
def command? (cs : List Char) : Option (Nat × List Char) :=
  let opening := startsWith openingMark cs
  match cs.drop opening with
  | e :: ']' :: rest =>
    match e == escapeMark, rest.dropWhile (· != bell) with
    | true, _ :: after =>
      let parameters := rest.takeWhile (· != bell)
      some (opening + 3 + parameters.length + startsWith closingMark after, parameters)
    | _, _ => none
  | _ => none

/-- The commands in a text from a place on; the next `skip` characters lie in one. -/
def commandsFrom (place skip : Nat) : List Char → List TerminalCommand
  | [] => []
  | c :: cs =>
    match skip with
    | skip + 1 => commandsFrom (place + 1) skip cs
    | 0 =>
      match command? (c :: cs) with
      | some (n, parameters) => ⟨place, n, parameters⟩ :: commandsFrom (place + 1) (n - 1) cs
      | none => commandsFrom (place + 1) 0 cs

/-- A command sets the title: its two parameters are what to set, if anything, and a text. -/
def TerminalCommand.setsTitle (c : TerminalCommand) : Bool :=
  match Text.splitOn ';' c.parameters with
  | [what, _] => ["", "0", "2", "02"].contains (String.ofList what)
  | _ => false

/-- A text after a command has been cut out where it was. -/
def TerminalCommand.cutFrom (cs : List Char) (c : TerminalCommand) : List Char :=
  cs.take c.start ++ cs.drop (c.start + c.length)

/-! ## Printing -/

/-- The text that is printed for a text. -/
def printed (text : String) : Result String :=
  let cs := withoutParts (sequenceLength? isPlainParameter) 0 text.toList
  let commands := commandsFrom 0 0 cs
  if commands.any TerminalCommand.setsTitle then .error .wrongShape
  else
    let rest := commands.foldl TerminalCommand.cutFrom cs
    .ok (String.ofList (withoutParts (markedSequenceLength? isDigitParameter) 0 rest))

end ApiModels.CommandLine
