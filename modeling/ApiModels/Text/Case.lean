/-
ApiModels.Text.Case — full upper and lower case.

Upper case maps each character by itself, possibly to several (`ß` to
`SS`). Lower case does so too, with one rule that looks around: a capital
sigma that ends a word becomes `ς`, any other `σ`. It ends a word when,
case-ignorable characters aside, a cased character stands before it and
none after.
-/
import ApiModels.Text.Case.Table

namespace ApiModels.Text

/-- The upper-case form of one character. -/
def upperChar (c : Char) : List Char :=
  match upperExpansions.find? (·.1 == c.toNat) with
  | some e => e.2.map Char.ofNat
  | none => [Char.ofNat (CaseRun.map upperRuns c.toNat)]

/-- The lower-case form of one character outside any context. -/
def lowerChar (c : Char) : List Char :=
  match lowerExpansions.find? (·.1 == c.toNat) with
  | some e => e.2.map Char.ofNat
  | none => [Char.ofNat (CaseRun.map lowerRuns c.toNat)]

/-- The first character that is not case-ignorable is cased. -/
def startsCased (cs : List Char) : Bool :=
  match cs.dropWhile (fun c => inRanges caseIgnorableRanges c.toNat) with
  | [] => false
  | c :: _ => inRanges casedRanges c.toNat

/-- Lower case of a text, given the characters before it, nearest first. -/
def lowerAfter (before : List Char) : List Char → List Char
  | [] => []
  | c :: cs =>
    let image :=
      if c == 'Σ' then if startsCased before && !startsCased cs then ['ς'] else ['σ']
      else lowerChar c
    image ++ lowerAfter (c :: before) cs

/-- The upper-case form of a text. -/
def upper (s : String) : String :=
  String.ofList (s.toList.flatMap upperChar)

/-- The lower-case form of a text. -/
def lower (s : String) : String :=
  String.ofList (lowerAfter [] s.toList)

end ApiModels.Text
