/-
ApiModels.Value.Basic — the values that documents and settings are made of.

A `Value` is a scalar, a list, or an object; some notations also make pairs
and sets. Objects keep their members in document order, and a member's key
is a scalar of any kind, since a document may use a number or a date as a
key.

A value may hold itself somewhere inside. Such a value is unrolled: where
it comes again, it is written out again, as deep as anybody looks. Each of
its lists and objects is a `knot` with a number, by which the list or the
object is known when it comes again. `Value.bare` takes the mark off.

Two notions are fixed here for the whole library. `Scalar.same` is the
equality by which keys are found: whole numbers, doubles and truth values
are compared as numbers, everything else by kind. `Value.given` says
whether a value counts as given at all: null, false, zero and everything
empty stand for "nothing said".
-/
import ApiModels.Number.Binary64
import ApiModels.Value.Date

namespace ApiModels

/-- Values that can be keys: those without parts, and pairs of such. -/
inductive Scalar (τ : Type := String) where
  | null
  | bool (b : Bool)
  | int (n : Int)
  | float (x : Binary64)
  | text (s : τ)
  | date (d : Date)
  | bytes (bs : List UInt8)
  | pair (first second : Scalar τ)
  deriving DecidableEq, Repr, Inhabited

/-- Scalars, lists, and objects with their members in order; further pairs and sets. -/
inductive Value (τ : Type := String) where
  | scalar (s : Scalar τ)
  | list (items : List (Value τ))
  | object (members : List (Scalar τ × Value τ))
  | pair (first second : Value τ)
  /-- Scalars without an order, each of them once. -/
  | set (items : List (Scalar τ))
  /-- A list or an object that may come again inside itself, under the same number. -/
  | knot (number : Nat) (v : Value τ)
  deriving Repr, Inhabited

/-- The members of an object in document order. -/
abbrev Members (τ : Type := String) := List (Scalar τ × Value τ)

variable {τ : Type}

namespace Scalar

/-- A truth value, a whole number or a double as one side of a numeric comparison. -/
def number? : Scalar τ → Option (Int ⊕ Binary64)
  | .bool b => some (.inl (if b then 1 else 0))
  | .int n => some (.inl n)
  | .float x => some (.inr x)
  | _ => none

/-- Numeric equality of whole numbers and doubles; what is not a number equals itself. -/
def sameNumber : Int ⊕ Binary64 → Int ⊕ Binary64 → Bool
  | .inl m, .inl n => m == n
  | .inl m, .inr y => y.equalsInt m
  | .inr x, .inl n => x.equalsInt n
  | .inr x, .inr y => x.same y || (x == .nan && y == .nan)

/-- The equality by which a key finds its member. -/
def same [DecidableEq τ] : Scalar τ → Scalar τ → Bool
  | .text s, .text t => s == t
  | .null, .null => true
  | .date d, .date e => d.same e
  | .bytes bs, .bytes cs => bs == cs
  | .pair a b, .pair c d => same a c && same b d
  | a, b =>
    match a.number?, b.number? with
    | some x, some y => sameNumber x y
    | _, _ => false

/-- A scalar counts as given unless it is null, false, zero or the empty text. -/
def given : Scalar → Bool
  | .null => false
  | .bool b => b
  | .int n => n != 0
  | .float x => !x.isZero
  | .text s => !s.isEmpty
  | .date _ => true
  | .bytes bs => !bs.isEmpty
  | .pair _ _ => true

/-- A scalar equals one of some. -/
def isAmong [DecidableEq τ] (s : Scalar τ) (others : List (Scalar τ)) : Bool :=
  others.any (fun t => t.same s)

/-- The text of a scalar, if it is one. -/
def text? : Scalar τ → Option τ
  | .text s => some s
  | _ => none

/-- A scalar with another text, if it is one, or with other texts in it. -/
def map {σ : Type} (f : τ → σ) : Scalar τ → Scalar σ
  | .null => .null
  | .bool b => .bool b
  | .int n => .int n
  | .float x => .float x
  | .text s => .text (f s)
  | .date d => .date d
  | .bytes bs => .bytes bs
  | .pair a b => .pair (map f a) (map f b)

/-- A scalar is a text. -/
def isText (s : Scalar τ) : Bool := s.text?.isSome

/-- Scalars each once: of equal ones the first stays. -/
def distinct [DecidableEq τ] (ss : List (Scalar τ)) : List (Scalar τ) :=
  ss.foldl (fun kept s => if s.isAmong kept then kept else kept ++ [s]) []

@[simp] theorem same_text [DecidableEq τ] (s t : τ) : same (.text s) (.text t) = (s == t) := rfl

end Scalar

namespace Value

/-- The value that says nothing. -/
@[match_pattern] abbrev null : Value τ := .scalar .null

/-- A truth value. -/
@[match_pattern] abbrev bool (b : Bool) : Value τ := .scalar (.bool b)

/-- A whole number. -/
@[match_pattern] abbrev int (n : Int) : Value τ := .scalar (.int n)

/-- A double. -/
@[match_pattern] abbrev float (x : Binary64) : Value τ := .scalar (.float x)

/-- A text. -/
@[match_pattern] abbrev text (s : τ) : Value τ := .scalar (.text s)

/-- A value without the mark of one that may come again inside itself. -/
def bare : Value τ → Value τ
  | .knot _ v => v.bare
  | v => v

/-- A value counts as given unless it is null, false, zero or empty. -/
def given : Value → Bool
  | .scalar s => s.given
  | .list items => !items.isEmpty
  | .object members => !members.isEmpty
  | .pair _ _ => true
  | .set items => !items.isEmpty
  | .knot _ v => v.given

/-- The value itself if it is given, else `fallback`. -/
def orElse (v fallback : Value) : Value :=
  if v.given then v else fallback

end Value

namespace Members

variable [DecidableEq τ]

/-- The value of the first member whose key is `key` in the sense of `Scalar.same`. -/
def lookup (members : Members τ) (key : Scalar τ) : Option (Value τ) :=
  (List.find? (fun m => m.1.same key) members).map (·.2)

/-- The value of a member named by a text. -/
def get? (members : Members τ) (key : τ) : Option (Value τ) :=
  lookup members (.text key)

/-- The value of a member named by a text; null when there is none. -/
def get (members : Members τ) (key : τ) : Value τ :=
  (get? members key).getD .null

/-- The value of a member named by a text; `fallback` when there is none. -/
def getOr (members : Members τ) (key : τ) (fallback : Value τ) : Value τ :=
  (get? members key).getD fallback

/-- Whether a member is named by the text. -/
def has (members : Members τ) (key : τ) : Bool :=
  (get? members key).isSome

/-- Sets a member: a known key keeps its place and spelling, a new one comes last. -/
def set {α : Type} (members : List (Scalar τ × α)) (key : Scalar τ) (value : α) :
    List (Scalar τ × α) :=
  match members with
  | [] => [(key, value)]
  | m :: rest => if m.1.same key then (m.1, value) :: rest else m :: set rest key value

/-- Members set one after another: of equal keys the first place and the last value stay. -/
def ofPairs {α : Type} (pairs : List (Scalar τ × α)) : List (Scalar τ × α) :=
  pairs.foldl (fun members p => set members p.1 p.2) []

end Members

namespace Value

mutual

/--
Equality of values: scalars by `Scalar.same`, lists item by item, objects member by member in any
order, sets in any order. A list or an object that may come again equals itself by its number.
-/
def same : Value → Value → Bool
  | .scalar a, w => match w.bare with
    | .scalar b => a.same b
    | _ => false
  | .list vs, w => match w.bare with
    | .list ws => sameItems vs ws
    | _ => false
  | .object ms, w => match w.bare with
    | .object ns => ms.length == ns.length && sameMembers ms ns
    | _ => false
  | .pair a b, w => match w.bare with
    | .pair c d => same a c && same b d
    | _ => false
  | .set ss, w => match w.bare with
    | .set ts => ss.length == ts.length && ss.all (fun s => s.isAmong ts)
    | _ => false
  | .knot n v, w => match w with
    | .knot m w => n == m || same v w
    | w => same v w

/-- Lists are equal item by item. -/
def sameItems : List Value → List Value → Bool
  | [], [] => true
  | v :: vs, w :: ws => same v w && sameItems vs ws
  | _, _ => false

/-- Every member has an equal one among others. -/
def sameMembers : List (Scalar × Value) → List (Scalar × Value) → Bool
  | [], _ => true
  | (k, v) :: ms, ns =>
    (match Members.lookup ns k with
     | some w => same v w
     | none => false) && sameMembers ms ns

end

end Value

end ApiModels
