/-
ApiModels.Text.Base64 — bytes written in an alphabet of sixty-four
characters.

Four characters stand for three bytes. Characters outside the alphabet say
nothing. A group of two or three characters is filled up to four by equals
signs, and what follows them is not looked at; equals signs elsewhere say
nothing either.
-/

namespace ApiModels.Text.Base64

/-- The six bits that a character of the alphabet stands for. -/
def sixBits? (c : Char) : Option Nat :=
  if 'A' ≤ c && c ≤ 'Z' then some (c.toNat - 0x41)
  else if 'a' ≤ c && c ≤ 'z' then some (c.toNat - 0x47)
  else if c.isDigit then some (c.toNat + 4)
  else if c == '+' then some 62
  else if c == '/' then some 63
  else none

/-- A group that is not complete: its characters so far, and the bits that make no byte yet. -/
structure Group where
  count : Nat := 0
  bits : Nat := 0
  /-- The equals signs since the last character. -/
  fill : Nat := 0

/-- The group with six bits more, and the byte that is complete then. -/
def Group.push (g : Group) (six : Nat) : Group × Option UInt8 :=
  let bits := 64 * g.bits + six
  match g.count with
  | 0 => (⟨1, bits, 0⟩, none)
  | 1 => (⟨2, bits % 16, 0⟩, some (UInt8.ofNat (bits / 16)))
  | 2 => (⟨3, bits % 4, 0⟩, some (UInt8.ofNat (bits / 4)))
  | _ => (⟨0, 0, 0⟩, some (UInt8.ofNat bits))

/-- The bytes of the rest of a text; `acc` holds those before, backwards. -/
def decodeFrom (g : Group) (acc : List UInt8) : List Char → Option (List UInt8)
  | [] => if g.count == 0 then some acc.reverse else none
  | c :: cs =>
    if c == '=' then
      if 2 ≤ g.count then
        if 4 ≤ g.count + g.fill + 1 then some acc.reverse
        else decodeFrom { g with fill := g.fill + 1 } acc cs
      else decodeFrom g acc cs
    else
      match sixBits? c with
      | none => decodeFrom g acc cs
      | some six =>
        let (g, byte) := g.push six
        decodeFrom g (byte.toList ++ acc) cs

/-- The bytes that a text stands for; none if its last group is not filled up. -/
def decode? (cs : List Char) : Option (List UInt8) := decodeFrom {} [] cs

end ApiModels.Text.Base64
