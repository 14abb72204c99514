/-
ApiModels.Text.LineBreak — one way to end a line.

Files end their lines with a line feed, a carriage return, or both.
`unifyBreaks` makes each of them one line feed, so what is read from a file
holds no carriage return (`not_mem_unifyBreaks`).
-/

namespace ApiModels.Text

/-- A carriage return, with the line feed after it if there is one, as a line feed. -/
def unifyBreaks : List Char → List Char
  | [] => []
  | '\r' :: '\n' :: cs => '\n' :: unifyBreaks cs
  | c :: cs => (if c == '\r' then '\n' else c) :: unifyBreaks cs

theorem not_mem_unifyBreaks (cs : List Char) : '\r' ∉ unifyBreaks cs := by
  fun_induction unifyBreaks cs with
  | case1 => simp
  | case2 cs ih => simpa using ih
  | case3 c cs h ih =>
    by_cases hc : c = '\r'
    · simpa [hc] using ih
    · simpa [hc, Ne.symm hc] using ih

end ApiModels.Text
