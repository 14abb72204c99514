/-
ApiModels.Value.Display — values as text on one line.

`Value.shown` writes a value inside others: texts in quotation marks,
dates as calls, lists in brackets, pairs in parentheses, objects and sets
in braces. A list or an object that comes again inside itself is not
written again; dots stand for it. `Value.display` writes a value alone,
where a text stands for itself. Messages, filter alternatives and derived
operation ids are made of displayed values.

A whole number of too many digits cannot be written: `Value.canBeTold`
says whether there is none in a value.
-/
import ApiModels.Value.Basic
import ApiModels.Number.Literal
import ApiModels.Number.Shortest
import ApiModels.Text.Quoted

namespace ApiModels

namespace Scalar

/-- A scalar inside a list or an object. -/
def shown : Scalar → String
  | .null => "None"
  | .bool b => if b then "True" else "False"
  | .int n => toString n
  | .float x => DecimalStyle.display.write x
  | .text s => Text.quoted s
  | .date d => d.constructed
  | .bytes bs => Text.quotedBytes bs
  | .pair a b => "(" ++ a.shown ++ ", " ++ b.shown ++ ")"

/-- A scalar alone: a text is itself, and a date stands as a calendar and a clock show it. -/
def display : Scalar → String
  | .text s => s
  | .date d => d.display " "
  | s => s.shown

/-- A scalar holds no whole number that is too long to be written. -/
def canBeTold {τ : Type} : Scalar τ → Bool
  | .int n => !Number.isTooLong n
  | .pair a b => a.canBeTold && b.canBeTold
  | _ => true

end Scalar

namespace Value

/-- The dots for a value that comes again. -/
def dots : Value → String
  | .list _ => "[...]"
  | .object _ => "\x7b...\x7d"
  | _ => "(...)"

mutual

/-- A value inside others. `around` are the numbers of those that may come again. -/
def shownIn (around : List Nat) : Value → String
  | .scalar s => s.shown
  | .list items => "[" ++ shownItems around items ++ "]"
  | .object members => "\x7b" ++ shownMembers around members ++ "\x7d"
  | .pair a b => "(" ++ a.shownIn around ++ ", " ++ b.shownIn around ++ ")"
  | .set [] => "set()"
  | .set (s :: ss) => "\x7b" ++ ", ".intercalate ((s :: ss).map Scalar.shown) ++ "\x7d"
  | .knot n v => if around.contains n then v.dots else v.shownIn (n :: around)

/-- List items with commas between them. -/
def shownItems (around : List Nat) : List Value → String
  | [] => ""
  | [v] => v.shownIn around
  | v :: vs => v.shownIn around ++ ", " ++ shownItems around vs

/-- Members with commas between them. -/
def shownMembers (around : List Nat) : List (Scalar × Value) → String
  | [] => ""
  | [(k, v)] => k.shown ++ ": " ++ v.shownIn around
  | (k, v) :: ms => k.shown ++ ": " ++ v.shownIn around ++ ", " ++ shownMembers around ms

end

/-- A value inside others, none of which comes again in it. -/
def shown (v : Value) : String := v.shownIn []

/-- A value alone: a text is itself. -/
def display : Value → String
  | .scalar s => s.display
  | v => v.shown

@[simp] theorem display_text (s : String) : display (.text s) = s := rfl

/-! ## Numbers that are too long -/

variable {τ : Type}

mutual

/-- Every whole number that a value shows is short enough to be written. -/
def canBeToldIn (around : List Nat) : Value τ → Bool
  | .scalar s => s.canBeTold
  | .list vs => itemsCanBeTold around vs
  | .object ms => membersCanBeTold around ms
  | .pair a b => a.canBeToldIn around && b.canBeToldIn around
  | .set ss => ss.all Scalar.canBeTold
  | .knot n v => around.contains n || v.canBeToldIn (n :: around)

/-- Every whole number that items show is short enough to be written. -/
def itemsCanBeTold (around : List Nat) : List (Value τ) → Bool
  | [] => true
  | v :: vs => v.canBeToldIn around && itemsCanBeTold around vs

/-- Every whole number that members show is short enough to be written. -/
def membersCanBeTold (around : List Nat) : Members τ → Bool
  | [] => true
  | (k, v) :: ms => k.canBeTold && v.canBeToldIn around && membersCanBeTold around ms

end

/-- Every whole number in a value is short enough to be written. -/
def canBeTold (v : Value τ) : Bool := v.canBeToldIn []

@[simp] theorem canBeTold_text (s : τ) : canBeTold (.text s) = true := rfl

end Value

end ApiModels
