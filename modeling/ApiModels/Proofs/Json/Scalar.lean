/-
ApiModels.Proofs.Json.Scalar — texts and other scalars are read as they are
written.

Every letter of a text is read back from its escape, a character beyond the first
plane as its two halves (`stringBody_escape`). Halves that follow each other become
a character when the text ends, so a text is read as what it is when its halves are
joined (`string?_string`). `Reads t v` says of a piece of JSON text that it reads as
a value wherever it is followed by a comma, by a closing bracket or by nothing.
-/
import ApiModels.Proofs.Json.Number
import ApiModels.Proofs.Text.Letter

namespace ApiModels

namespace Json

variable {n : Nat} {c : Char} {t cs rest : List Char} {acc : Letters} {x : Letter}

/-! ## Strings -/

theorem hexValue?_hexDigit : ∀ d < 16, hexValue? (Text.hexDigit d) = some d := by decide

/-- Four hexadecimal digits of a unit read as it. -/
theorem unit?_hexDigits (hn : n < 0x10000) :
    ∃ a b c d, Text.hexDigits 4 n = [a, b, c, d] ∧ unit? a b c d = some n := by
  refine ⟨_, _, _, _, rfl, ?_⟩
  simp only [unit?, hexValue?_hexDigit _ (Nat.mod_lt _ (by decide))]
  simp only [bind, Option.bind, Option.some.injEq]
  omega

theorem stringBody_unitEscape (hn : n < 0x10000) (hx : Letter.ofCode? n = some x) :
    stringBody acc (unitEscape n ++ rest) = stringBody (x :: acc) rest := by
  obtain ⟨a, b, c, d, hdigits, hunit⟩ := unit?_hexDigits hn
  simp only [unitEscape, hdigits, List.cons_append, List.nil_append, stringBody, hunit,
    Option.bind_some, hx]

theorem stringBody_high (a : Fin 0x400) :
    stringBody acc (unitEscape (0xD800 + a) ++ rest) = stringBody (.high a :: acc) rest :=
  stringBody_unitEscape (by omega) (Letter.ofCode?_high a)

theorem stringBody_low (b : Fin 0x400) :
    stringBody acc (unitEscape (0xDC00 + b) ++ rest) = stringBody (.low b :: acc) rest :=
  stringBody_unitEscape (by omega) (Letter.ofCode?_low b)

/-- A character that is no mark, no backslash and no control stands for itself. -/
theorem stringBody_plain (hmark : c ≠ '"') (hslash : c ≠ '\\') (hc : 0x20 ≤ c.toNat)
    (rest : List Char) : stringBody acc (c :: rest) = stringBody (.char c :: acc) rest := by
  rw [stringBody.eq_def]
  split
  · rename_i heq
    exact absurd (List.cons.inj heq).1 hmark
  · rename_i heq
    exact absurd (List.cons.inj heq).1 hslash
  · rename_i heq
    exact absurd (List.cons.inj heq).1 hslash
  · rename_i heq
    obtain ⟨rfl, rfl⟩ := List.cons.inj heq
    rw [if_neg (by omega)]
  · rename_i heq
    cases heq

/-- A character is read from its escape, as its halves if it was written so. -/
theorem stringBody_escapeChar (c : Char) (rest : List Char) :
    stringBody acc (escapeChar c ++ rest) =
      stringBody ((Letter.char c).halves.reverse ++ acc) rest := by
  have hone : c.toNat < 0x10000 → (Letter.char c).halves.reverse ++ acc = .char c :: acc := by
    intro hc
    rw [Letter.halves, if_pos hc]
    rfl
  unfold escapeChar
  simp only [beq_iff_eq, Bool.and_eq_true, decide_eq_true_eq]
  split_ifs with h1 h2 h3 h4 h5 h6 h7 h8 h9
  · subst h1
    rfl
  · subst h2
    rfl
  · subst h3
    rfl
  · subst h4
    rfl
  · subst h5
    rfl
  · obtain rfl : c = '\x08' := Char.toNat_inj.1 h6
    rfl
  · obtain rfl : c = '\x0c' := Char.toNat_inj.1 h7
    rfl
  · rw [hone (by omega)]
    exact stringBody_plain h1 h2 h8.1 rest
  · rw [stringBody_unitEscape h9 (Letter.ofCode?_char c), hone h9]
  · have hvalid : c.toNat < 0xD800 ∨ 0xDFFF < c.toNat ∧ c.toNat < 0x110000 := c.valid
    have hhigh : (c.toNat - 0x10000) / 0x400 =
        (Fin.ofNat 0x400 ((c.toNat - 0x10000) / 0x400) : Nat) :=
      (Nat.mod_eq_of_lt (by omega)).symm
    have hlow : (c.toNat - 0x10000) % 0x400 = (Fin.ofNat 0x400 (c.toNat - 0x10000) : Nat) := rfl
    rw [List.append_assoc, hhigh, stringBody_high, hlow, stringBody_low, Letter.halves, if_neg h9]
    rfl

/-- A letter is read from its escape, a character as its halves if it was written so. -/
theorem stringBody_escape (x : Letter) (rest : List Char) :
    stringBody acc (escape x ++ rest) = stringBody (x.halves.reverse ++ acc) rest := by
  cases x with
  | char c => exact stringBody_escapeChar c rest
  | high n => exact stringBody_high n
  | low n => exact stringBody_low n

/-- The text of a string is read up to its closing mark, with its halves joined. -/
theorem string?_string (s : Letters) (rest : List Char) :
    string? (s.flatMap escape ++ '"' :: rest) = some (s.joined, rest) := by
  have hbody : ∀ s acc : Letters, stringBody acc (s.flatMap escape ++ '"' :: rest) =
      some (Letters.joined (acc.reverse ++ s.flatMap Letter.halves), rest) := by
    intro s
    induction s with
    | nil =>
      intro acc
      rw [List.flatMap_nil, List.flatMap_nil, List.append_nil]
      rfl
    | cons x s ih =>
      intro acc
      rw [List.flatMap_cons, List.append_assoc, stringBody_escape, ih, List.flatMap_cons,
        List.reverse_append, List.reverse_reverse, List.append_assoc]
  rw [string?, hbody, List.reverse_nil, List.nil_append, Letters.joined_halves]

/-! ## Texts that stand for values -/

variable {τ : Type} [DecidableEq τ] [Spelled τ] {v : Value τ}

/-- A text stands for a value: it reads as the value wherever a value may end behind it. -/
def Reads (t : List Char) (v : Value τ) : Prop :=
  ∀ n rest, t.length ≤ n → Delimited rest → value n (t ++ rest) = .ok (v, rest)

theorem delimited_nil : Delimited [] := nofun

/-- No value starts with a blank or with a closing bracket. -/
theorem atom_of_blank (hc : c ∈ [' ', '\t', '\n', '\r', ']', '\x7d']) :
    (value (n + 1) (c :: cs) : Read (Value τ)) = .error .badSyntax := by
  simp only [List.mem_cons, List.not_mem_nil, or_false] at hc
  rcases hc with rfl | rfl | rfl | rfl | rfl | rfl <;> rfl

/-- What stands for a value starts with what no blank and no closing bracket is. -/
theorem Reads.start (h : Reads t v) :
    ∃ c cs, t = c :: cs ∧ c ∉ [' ', '\t', '\n', '\r', ']', '\x7d'] := by
  have hread := h t.length [] le_rfl delimited_nil
  cases t with
  | nil => cases hread
  | cons c cs =>
    refine ⟨c, cs, rfl, fun hc => ?_⟩
    rw [List.append_nil, List.length_cons, atom_of_blank hc] at hread
    cases hread

/-- Before a value that is there, nothing is blank. -/
theorem Reads.skipBlanks (h : Reads t v) (rest : List Char) :
    skipBlanks (t ++ rest) = t ++ rest := by
  obtain ⟨c, cs, rfl, hc⟩ := h.start
  simp only [List.mem_cons, not_or] at hc
  exact List.dropWhile_cons_of_neg (by simp [hc])

theorem reads_string (s : τ) : Reads (string s).toList (.text (Spelled.joined s)) := by
  intro n rest hn _
  rw [string, String.toList_ofList] at hn ⊢
  cases n with
  | zero => cases hn
  | succ n => simp [value, string?_string, Spelled.joined]

/-- A text that starts no string, list or object is read by its kind of value alone. -/
theorem reads_of_atom {s : Scalar Empty} (hstart : c ∉ ['"', '[', '\x7b'])
    (h : ∀ rest, Delimited rest → atom (c :: cs ++ rest) = .ok (s, rest)) :
    Reads (c :: cs) (.scalar (s.map Empty.elim) : Value τ) := by
  intro n rest hn hrest
  simp only [List.mem_cons, List.not_mem_nil, or_false, not_or] at hstart
  cases n with
  | zero => cases hn
  | succ n =>
    have hatom := h rest hrest
    rw [List.cons_append] at hatom
    rw [List.cons_append, value, hatom]
    · rfl
    · exact fun _ heq => hstart.1 (List.cons.inj heq).1
    · exact fun _ heq => hstart.2.1 (List.cons.inj heq).1
    · exact fun _ heq => hstart.2.2 (List.cons.inj heq).1

/-- The words that are values read as them. -/
theorem reads_words : ∀ w ∈ words,
    Reads w.1.toList (.scalar (w.2.map Empty.elim) : Value τ) := by
  intro w hw
  simp only [words, List.mem_cons, List.not_mem_nil, or_false] at hw
  rcases hw with rfl | rfl | rfl | rfl | rfl | rfl <;>
    exact reads_of_atom (by decide) fun _ _ => rfl

/-- What does not start with a digit is no number. -/
theorem number_of_noDigit {negative : Bool} (h : NoDigit cs) :
    number negative cs = .error .badSyntax := by
  have hnone : digits cs = ([], cs) := digits_append (nofun : AllDigits []) h
  unfold number
  split
  · cases h _ _ rfl
  · rw [hnone]

/-- A number starts with a digit. -/
theorem digit_of_number {negative : Bool} {r : Scalar Empty × List Char}
    (h : number negative cs = .ok r) : ∃ d ds, cs = d :: ds ∧ d.isDigit = true := by
  by_contra hno
  simp only [not_exists, not_and, Bool.not_eq_true] at hno
  rw [number_of_noDigit hno] at h
  cases h

/-- A digit, with or without a sign before it, starts no word. -/
theorem atom_of_digit (negative : Bool) (hc : c.isDigit = true) :
    atom ((if negative then ['-'] else []) ++ c :: cs) = number negative (c :: cs) := by
  have hne : ∀ d, d.isDigit = false → d ≠ c := by
    rintro d hd rfl
    simp [hc] at hd
  have hwords : words.findSome? (fun w =>
      (word? w.1 ((if negative then ['-'] else []) ++ c :: cs)).map fun rest => (w.2, rest)) =
        none := by
    rw [List.findSome?_eq_none_iff]
    intro w hw
    simp only [words, List.mem_cons, List.not_mem_nil, or_false] at hw
    rcases hw with rfl | rfl | rfl | rfl | rfl | rfl <;> cases negative <;>
      simp [word?, List.isPrefixOf, hne]
  cases negative with
  | true =>
    simp only [if_true, List.cons_append, List.nil_append] at hwords ⊢
    rw [atom, hwords]
  | false =>
    simp only [Bool.false_eq_true, if_false, List.nil_append] at hwords ⊢
    rw [atom, hwords]
    exact fun _ heq => hne '-' rfl (List.cons.inj heq).1.symm

/-- A number with its sign reads as what its digits read as. -/
theorem reads_number (negative : Bool) {s : Scalar Empty}
    (h : ∀ rest, Delimited rest → number negative (t ++ rest) = .ok (s, rest)) :
    Reads ((if negative then ['-'] else []) ++ t) (.scalar (s.map Empty.elim) : Value τ) := by
  obtain ⟨d, ds, heq, hd⟩ := digit_of_number (h [] delimited_nil)
  rw [List.append_nil] at heq
  subst heq
  have hread : ∀ rest, Delimited rest →
      atom ((if negative then ['-'] else []) ++ d :: ds ++ rest) = .ok (s, rest) := by
    intro rest hrest
    rw [List.append_assoc, List.cons_append, atom_of_digit negative hd]
    exact h rest hrest
  cases negative with
  | true => exact reads_of_atom (by decide) hread
  | false =>
    refine reads_of_atom (fun hmark => ?_) hread
    simp only [List.mem_cons, List.not_mem_nil, or_false] at hmark
    rcases hmark with rfl | rfl | rfl <;> cases hd

theorem toList_toString_int (n : Int) :
    (toString n).toList = (if n < 0 then ['-'] else []) ++ Nat.toDigits 10 n.natAbs := by
  cases n with
  | ofNat n => exact Nat.toList_repr
  | negSucc n =>
    rw [if_pos (Int.negSucc_lt_zero n)]
    exact String.toList_append.trans (congrArg (['-'] ++ ·) Nat.toList_repr)

theorem reads_int {n : Int} (hn : Number.isTooLong n = false) :
    Reads (toString n).toList (.int n : Value τ) := by
  have hvalue : (if n < 0 then -(n.natAbs : Int) else n.natAbs) = n := by
    split_ifs <;> omega
  have hdigits : ∀ rest, Delimited rest →
      number (decide (n < 0)) (Nat.toDigits 10 n.natAbs ++ rest) = .ok (.int n, rest) := by
    intro rest hrest
    rw [number_toDigits _ ((isTooLong_eq_false_iff n).1 hn) hrest]
    simp only [decide_eq_true_eq, hvalue]
  have hread : Reads _ (.int n : Value τ) := reads_number (decide (n < 0)) hdigits
  simp only [decide_eq_true_eq] at hread
  rwa [toList_toString_int]

theorem reads_float (x : Binary64) :
    Reads (DecimalStyle.document.write x).toList (.float x.reread : Value τ) := by
  cases x with
  | finite s m e =>
    rw [write_finite]
    exact reads_number s fun rest => number_magnitude s m e
  | infinite s =>
    cases s with
    | false => exact reads_words ("Infinity", .float (.infinite false)) (by simp [words])
    | true => exact reads_words ("-Infinity", .float (.infinite true)) (by simp [words])
  | nan => exact reads_words ("NaN", .float .nan) (by simp [words])

end ApiModels.Json
