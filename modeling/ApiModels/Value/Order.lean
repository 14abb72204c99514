/-
ApiModels.Value.Order — the order of scalars, and sorting.

Scalars of one kind can be put in order: texts and bytes by their codes,
numbers by value, dates by time. A double that is not a number is neither
below nor above any other number, so it has no place of its own.

`sortedBy` starts from the elements at the front of a list that are in
order already and puts every further element in where halving leads.
Elements of which neither is below the other keep their order. Where an
element has no place of its own, the comparisons on the way decide.
-/
import ApiModels.Failure

namespace ApiModels

namespace Scalar

/-- Order of two numbers. -/
def numberBelow : Int ⊕ Binary64 → Int ⊕ Binary64 → Bool
  | .inl m, .inl n => m < n
  | .inl m, .inr y =>
    match y with
    | .infinite s => !s
    | _ => match y.toRatio? with
      | some (a, b) => m * b < a
      | none => false
  | .inr x, .inl n =>
    match x with
    | .infinite s => s
    | _ => match x.toRatio? with
      | some (a, b) => a < n * b
      | none => false
  | .inr x, .inr y => x.below y

/-- The order of scalars of one kind: texts by code points, numbers by value, dates by time. -/
def isBelow : Scalar → Scalar → Bool
  | .text s, .text t => s < t
  | .date d, .date e => d.below e
  | .bytes bs, .bytes cs => bs < cs
  | a, b =>
    match a.number?, b.number? with
    | some x, some y => numberBelow x y
    | _, _ => false

/-- Scalars of one kind can be put in order. -/
def comparable : Scalar → Scalar → Bool
  | .text _, .text _ => true
  | .date d, .date e => d.comparable e
  | .bytes _, .bytes _ => true
  | a, b => a.number?.isSome && b.number?.isSome

/-- Scalars that can be put in order: all of one kind, or one alone. -/
def allComparable : List Scalar → Bool
  | [] => true
  | a :: as => as.all a.comparable

end Scalar

/-! ## Sorting -/

variable {α : Type}

/-- The elements after `a` up to the first that is below the one before it, and the rest. -/
def rising (below : α → α → Bool) (a : α) : List α → List α × List α
  | [] => ([], [])
  | b :: bs =>
    if below b a then ([], b :: bs)
    else
      let (run, rest) := rising below b bs
      (b :: run, rest)

/-- The elements after `a` as long as each is below the one before it, and the rest. -/
def falling (below : α → α → Bool) (a : α) : List α → List α × List α
  | [] => ([], [])
  | b :: bs =>
    if below b a then
      let (run, rest) := falling below b bs
      (b :: run, rest)
    else ([], b :: bs)

/-- The elements at the front that are in order, or in reverse order and turned round; the rest. -/
def orderedFront (below : α → α → Bool) : List α → List α × List α
  | [] => ([], [])
  | [a] => ([a], [])
  | a :: b :: bs =>
    if below b a then
      let (run, rest) := falling below b bs
      ((a :: b :: run).reverse, rest)
    else
      let (run, rest) := rising below b bs
      (a :: b :: run, rest)

/-- The position for an element between two positions, by halving. -/
def positionFor (below : α → α → Bool) (a : α) (sorted : List α) : Nat → Nat → Nat → Nat
  | 0, low, _ => low
  | n + 1, low, high =>
    if low < high then
      let middle := low + (high - low) / 2
      match sorted[middle]? with
      | some b =>
        if below a b then positionFor below a sorted n low middle
        else positionFor below a sorted n (middle + 1) high
      | none => low
    else low

/-- Puts an element in its place: before the elements that it is below. -/
def insertSorted (below : α → α → Bool) (sorted : List α) (a : α) : List α :=
  let position := positionFor below a sorted sorted.length 0 sorted.length
  sorted.take position ++ a :: sorted.drop position

/-- The elements in order; of elements in no order the first comes first. -/
def sortedBy (below : α → α → Bool) (elements : List α) : List α :=
  let (front, rest) := orderedFront below elements
  rest.foldl (insertSorted below) front

/-- Elements in the order of their keys, equal keys in their first order; all of one kind. -/
def sortOnKey (keyOf : α → Scalar) (elements : List α) : Result (List α) :=
  if Scalar.allComparable (elements.map keyOf) then
    .ok (sortedBy (fun a b => (keyOf a).isBelow (keyOf b)) elements)
  else .error .wrongShape

end ApiModels
