/-
ApiModels.Value.Shape — reading values where a certain shape is expected.

Documents and settings are read leniently. A value that is not given
stands for an empty object or list; a text stands for the list of its
characters, bytes for the list of their numbers and an object for the list
of its keys, where a list is expected. Whatever remains is of the wrong
shape.
-/
import ApiModels.Failure
import ApiModels.Text.Split

namespace ApiModels

namespace Scalar

/-- The characters of a text, the numbers of bytes, the parts of a pair. -/
def items : Scalar → Result (List Value)
  | .text s => .ok (s.toList.map (fun c => .text (String.singleton c)))
  | .bytes bs => .ok (bs.map (fun b => .int b.toNat))
  | .pair a b => .ok [.scalar a, .scalar b]
  | _ => .error .wrongShape

end Scalar

namespace Value

/-- The members of a value that is an object. -/
def members? {τ : Type} (v : Value τ) : Option (Members τ) :=
  match v.bare with
  | .object ms => some ms
  | _ => none

/-- The members of an object. -/
def members {τ : Type} (v : Value τ) : Result (Members τ) :=
  match v.members? with
  | some ms => .ok ms
  | none => .error .wrongShape

/-- The members of an object; a value that is not given has none. -/
def membersOrNone (v : Value) : Result Members :=
  if v.given then v.members else .ok []

/-- The items of a list, a pair or a set, the keys of an object, the parts of a scalar. -/
def items (v : Value) : Result (List Value) :=
  match v.bare with
  | .list vs => .ok vs
  | .object ms => .ok (ms.map (fun m => .scalar m.1))
  | .pair a b => .ok [a, b]
  | .set ss => .ok (ss.map .scalar)
  | .scalar s => s.items
  | _ => .error .wrongShape

/-- The items of a value; a value that is not given has none. -/
def itemsOrNone (v : Value) : Result (List Value) :=
  if v.given then v.items else .ok []

/-- A scalar or a pair of such, which alone can be a key or a member of a set. -/
def key : Value → Result Scalar
  | .scalar s => .ok s
  | .pair a b => do .ok (.pair (← a.key) (← b.key))
  | _ => .error .wrongShape

/-- The text of a value that must be one. -/
def asText : Value → Result String
  | .text s => .ok s
  | _ => .error .wrongShape

/-- The text of a value, if it is one. -/
def text? : Value → Option String
  | .text s => some s
  | _ => none

/-- Values that can all be keys, as such. -/
def keys : List Value → Result (List Scalar)
  | [] => .ok []
  | v :: vs => do
    let k ← v.key
    .ok (k :: (← keys vs))

/-- A set of names: the items of a value, which must all be able to be keys. -/
def names (v : Value) : Result (List Scalar) := do
  keys (← v.itemsOrNone)

/-- The displayed value, unless it shows a whole number that is too long to be written. -/
def told (v : Value) : Result String :=
  if v.canBeTold then .ok v.display else .error (.tooManyDigits none)

/-- The displayed values. -/
def toldEach : List Value → Result (List String)
  | [] => .ok []
  | v :: vs => do
    let s ← v.told
    .ok (s :: (← toldEach vs))

/-- The first item of a value that is not empty; an object answers to the key zero. -/
def first (v : Value) : Result Value :=
  match v.bare with
  | .object ms =>
    match Members.lookup ms (.int 0) with
    | some found => .ok found
    | none => .error .wrongShape
  | .set _ => .error .wrongShape
  | other => do
    match ← other.items with
    | found :: _ => .ok found
    | [] => .error .wrongShape

/-- Pairs given one by one, from position `n` on. -/
def pairsFrom (n : Nat) : List Value → Result Members
  | [] => .ok []
  | v :: vs => do
    match ← v.items with
    | [k, value] => do
      let key ← k.key
      let rest ← pairsFrom (n + 1) vs
      .ok ((key, value) :: rest)
    | parts => .error (.notAPair n parts.length)

/-- The members of an object or of a list of pairs; a value that is not given has none. -/
def association (v : Value) : Result Members :=
  if v.given then
    match v.members? with
    | some ms => .ok ms
    | none => do
      let pairs ← pairsFrom 0 (← v.items)
      .ok (Members.ofPairs pairs)
  else .ok []

/-- Whether a value is among the keys or the items of another, or a text among the parts of one. -/
def contains (v part : Value) : Result Bool :=
  match v.bare with
  | .object ms => do .ok (Members.lookup ms (← part.key)).isSome
  | .list vs => .ok (vs.any (fun item => item.same part))
  | .pair a b => .ok (a.same part || b.same part)
  | .set ss => do .ok ((← part.key).isAmong ss)
  | .text s => do .ok (Text.isPartOf (← part.asText).toList s.toList)
  | _ => .error .wrongShape

end Value

end ApiModels
