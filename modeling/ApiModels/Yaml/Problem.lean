/-
ApiModels.Yaml.Problem — what a YAML parser gives.

A parser reads a text as a whole, or one that comes from a file in pieces.
-/
import ApiModels.Failure

namespace ApiModels.Yaml

/-- A text cannot be read, or what it says names a number, a date or a character that is none. -/
inductive Problem where
  | unreadable
  | failure (cause : Failure)

/-- What is read, or why it is not. -/
abbrev Reading := Except Problem

/-- What is read, if it can be read. -/
def orUnreadable {α : Type} (found : Option α) : Reading α :=
  match found with
  | some a => .ok a
  | none => .error .unreadable

/-- A parser of YAML texts into values with texts of some type. -/
structure Parser (τ : Type := String) where
  parse : String → Reading (Value τ)
  /-- What is read of a text that comes in pieces. -/
  parsePieces : String → Reading (Value τ)

end ApiModels.Yaml
