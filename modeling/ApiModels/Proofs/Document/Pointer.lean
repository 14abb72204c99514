/-
ApiModels.Proofs.Document.Pointer — pointers and the keys in them.

A key is written in a pointer with its tildes escaped first and its slashes
after them, and read the other way round; so every key is read as itself,
whatever it holds (`decode_encode`). `Pointer.ofKeys` is the pointer that
keys are written in, and `Value.LeadsTo` says where keys lead through nested
objects: the pointer designates the same object (`target?_ofKeys`).

A reference to a declared schema is made of the name as it stands
(`Document.schema`), so it leads where the keys lead that this name is read
as. These are the name alone exactly if it holds no slash and no escape
(`Pointer.Plain`); a declared schema without a reference is then what the
reference leads to (`resolve_schema`).
-/
import ApiModels.Field.Document
import ApiModels.Proofs.Document.Reference

namespace ApiModels

namespace Value

/-- Keys lead from a value to an object, through nested objects. -/
inductive LeadsTo : Value → List String → Members → Prop where
  | here {v ms} (hv : v.members? = some ms) : LeadsTo v [] ms
  | on {v ms key inner keys last} (hv : v.members? = some ms) (hkey : ms.get? key = some inner)
      (h : LeadsTo inner keys last) : LeadsTo v (key :: keys) last

variable {v : Value} {ms last : Members} {keys : List String}

theorem leadsTo_iff : v.LeadsTo keys last ↔ (v.descend keys).bind members? = some last := by
  induction keys generalizing v with
  | nil =>
    constructor
    · rintro ⟨hv⟩
      exact hv
    · exact .here
  | cons key keys ih =>
    constructor
    · intro h
      cases h with
      | on hv hkey h => simpa only [descend, hv, hkey] using ih.1 h
    · intro h
      cases hv : v.members? with
      | none => simp [descend, hv] at h
      | some ms =>
        cases hkey : ms.get? key with
        | none => simp [descend, hv, hkey] at h
        | some inner => exact .on hv hkey (ih.2 (by simpa only [descend, hv, hkey] using h))

/-- Only the members of a value count for where keys lead from it. -/
theorem leadsTo_object_iff (hv : v.members? = some ms) :
    (object ms).LeadsTo keys last ↔ v.LeadsTo keys last := by
  have hsame : ∀ {w w' : Value}, w.members? = w'.members? →
      w.LeadsTo keys last → w'.LeadsTo keys last := by
    intro w w' heq h
    cases h with
    | here hw => exact .here (heq ▸ hw)
    | on hw hkey h => exact .on (heq ▸ hw) hkey h
  exact ⟨hsame hv.symm, hsame hv⟩

/-- Keys that come to an object lead on as they lead from there. -/
theorem LeadsTo.append_iff (h : v.LeadsTo keys ms) {more : List String} :
    v.LeadsTo (keys ++ more) last ↔ (object ms).LeadsTo more last := by
  induction h with
  | here hv => exact (leadsTo_object_iff hv).symm
  | on hv hkey _ ih =>
    rw [← ih]
    constructor
    · intro h
      cases h with
      | on hv' hkey' h =>
        cases hv.symm.trans hv'
        cases hkey.symm.trans hkey'
        exact h
    · exact .on hv hkey

end Value

namespace Pointer

/-! ## Characters -/

section

variable {code meant : Char} {c : Char} {cs : List Char}

theorem escape_cons_self :
    escape meant code (meant :: cs) = '~' :: code :: escape meant code cs := by
  simp [escape]

theorem escape_cons_of_ne (h : c ≠ meant) :
    escape meant code (c :: cs) = c :: escape meant code cs := by
  simp [escape, h]

theorem unescape_code :
    unescape code meant ('~' :: code :: cs) = meant :: unescape code meant cs := by
  simp [unescape]

/-- What is no tilde, or has not the code behind it, is read as it stands. -/
theorem unescape_cons (h : c = '~' → cs.head? ≠ some code) :
    unescape code meant (c :: cs) = c :: unescape code meant cs := by
  cases cs with
  | nil => rfl
  | cons d cs =>
    rw [unescape, if_neg]
    rintro ⟨hc, rfl⟩
    exact h hc rfl

theorem unescape_escape_tilde (key : List Char) :
    unescape '0' '~' (escape '~' '0' key) = key := by
  induction key with
  | nil => rfl
  | cons c key ih =>
    by_cases hc : c = '~'
    · rw [hc, escape_cons_self, unescape_code, ih]
    · rw [escape_cons_of_ne hc, unescape_cons fun h => absurd h hc, ih]

/-- Escaped tildes have a zero behind them, so no slash is read where none was escaped. -/
theorem unescape_escape_slash (key : List Char) :
    unescape '1' '/' (escape '/' '1' (escape '~' '0' key)) = escape '~' '0' key := by
  induction key with
  | nil => rfl
  | cons c key ih =>
    by_cases htilde : c = '~'
    · have hzero : '0' = '~' → (escape '/' '1' (escape '~' '0' key)).head? ≠ some '1' :=
        fun h => absurd h (by decide)
      rw [htilde, escape_cons_self, escape_cons_of_ne (by decide), escape_cons_of_ne (by decide),
        unescape_cons (by simp), unescape_cons hzero, ih]
    · rw [escape_cons_of_ne htilde]
      by_cases hslash : c = '/'
      · rw [hslash, escape_cons_self, unescape_code, ih]
      · rw [escape_cons_of_ne hslash, unescape_cons fun h => absurd h htilde, ih]

theorem decode_encode (key : List Char) : decode (encode key) = key := by
  rw [decode, encode, unescape_escape_slash, unescape_escape_tilde]

theorem slash_not_mem_encode (key : List Char) : '/' ∉ encode key := by
  intro h
  obtain ⟨c, -, hc⟩ := List.mem_flatMap.1 h
  split at hc
  · exact absurd hc (by decide)
  · rename_i hne
    exact hne (List.mem_singleton.1 hc).symm

/-! ## Escapes -/

theorem length_unescape_le (code meant : Char) (cs : List Char) :
    (unescape code meant cs).length ≤ cs.length := by
  fun_induction unescape code meant cs with
  | case1 => exact Nat.le_refl _
  | case2 c => exact Nat.le_refl _
  | case3 c d cs _ ih => exact Nat.succ_le_succ (Nat.le_succ_of_le ih)
  | case4 c d cs _ ih => exact Nat.succ_le_succ ih

/-- Reading an escape makes a text shorter. -/
theorem length_unescape_lt (h : ['~', code] <:+: cs) :
    (unescape code meant cs).length < cs.length := by
  fun_induction unescape code meant cs with
  | case1 => cases List.infix_nil.1 h
  | case2 c => exact absurd h.length_le (Nat.not_succ_le_self 1)
  | case3 c d cs => exact Nat.succ_lt_succ (Nat.lt_succ_of_le (length_unescape_le code meant cs))
  | case4 c d cs hnot ih =>
    rcases List.infix_cons_iff.1 h with hfirst | hlater
    · obtain ⟨hc, hrest⟩ := List.cons_prefix_cons.1 hfirst
      exact absurd ⟨hc.symm, (List.cons_prefix_cons.1 hrest).1.symm⟩ hnot
    · exact Nat.succ_lt_succ (ih hlater)

theorem unescape_eq_self_iff (code meant : Char) {cs : List Char} :
    unescape code meant cs = cs ↔ ¬ ['~', code] <:+: cs := by
  constructor
  · intro heq h
    exact absurd (congrArg List.length heq) (Nat.ne_of_lt (length_unescape_lt h))
  · intro h
    induction cs with
    | nil => rfl
    | cons c cs ih =>
      rw [unescape_cons, ih fun hlater => h (List.infix_cons_iff.2 (.inr hlater))]
      rintro rfl hhead
      obtain ⟨rest, rfl⟩ := List.head?_eq_some_iff.1 hhead
      exact h (List.infix_cons_iff.2 (.inl (by simp)))

theorem decode_eq_self_iff :
    decode cs = cs ↔ ¬ ['~', '0'] <:+: cs ∧ ¬ ['~', '1'] <:+: cs := by
  rw [decode, ← unescape_eq_self_iff '0' '~', ← unescape_eq_self_iff '1' '/']
  constructor
  · intro h
    have hslash : unescape '1' '/' cs = cs := by
      refine (unescape_eq_self_iff '1' '/').2 fun hescape => ?_
      have hle := length_unescape_le '0' '~' (unescape '1' '/' cs)
      rw [h] at hle
      exact Nat.not_lt_of_le hle (length_unescape_lt hescape)
    rw [hslash] at h
    exact ⟨h, hslash⟩
  · rintro ⟨htilde, hslash⟩
    rw [hslash, htilde]

end

/-! ## Keys -/

/-- The pointer that keys are written in. -/
def ofKeys (keys : List String) : String :=
  String.ofList ('#' :: '/' :: Text.joinWith '/' (keys.map fun key => encode key.toList))

theorem keys?_of_toList {pointer : String} (h : pointer.toList = '#' :: '/' :: cs) :
    keys? pointer = some (parts cs) := by
  rw [keys?, h]
  rfl

/-- Keys that are written in a pointer are read as themselves. -/
theorem keys?_ofKeys {keys : List String} (hne : keys ≠ []) : keys? (ofKeys keys) = some keys := by
  have hfree : ∀ part ∈ keys.map fun key => encode key.toList, '/' ∉ part := by
    intro part hpart
    obtain ⟨key, -, rfl⟩ := List.mem_map.1 hpart
    exact slash_not_mem_encode _
  have hread : ∀ key : String, String.ofList (decode (encode key.toList)) = key := by
    intro key
    rw [decode_encode, String.ofList_toList]
  have hwritten : (keys.map fun key => encode key.toList) ≠ [] := by simpa using hne
  rw [ofKeys, keys?_of_toList String.toList_ofList, parts, Text.splitOn_joinWith hwritten hfree,
    List.map_map]
  exact congrArg some ((List.map_congr_left fun key _ => hread key).trans (List.map_id keys))

/-- A name that is read as itself where a pointer holds it as it stands: without slashes and
escapes. -/
structure Plain (name : String) : Prop where
  slash : '/' ∉ name.toList
  escapedTilde : ¬ ['~', '0'] <:+: name.toList
  escapedSlash : ¬ ['~', '1'] <:+: name.toList

theorem parts_eq_singleton_iff {name : String} : parts name.toList = [name] ↔ Plain name := by
  constructor
  · intro h
    have hslash : '/' ∉ name.toList := by
      intro hmem
      obtain ⟨first, rest, hname, hfirst⟩ := List.eq_append_cons_of_mem hmem
      rw [parts, hname, Text.splitOn_append_cons hfirst, List.map_cons] at h
      exact Text.splitOn_ne_nil '/' rest (List.map_eq_nil_iff.1 (List.cons.inj h).2)
    rw [parts, Text.splitOn_of_not_mem hslash, List.map_singleton, List.singleton_inj] at h
    have hself : decode name.toList = name.toList := by
      rw [← String.toList_ofList (l := decode name.toList), h]
    obtain ⟨htilde, hescape⟩ := decode_eq_self_iff.1 hself
    exact ⟨hslash, htilde, hescape⟩
  · rintro ⟨hslash, htilde, hescape⟩
    rw [parts, Text.splitOn_of_not_mem hslash, List.map_singleton,
      decode_eq_self_iff.2 ⟨htilde, hescape⟩, String.ofList_toList]

end Pointer

/-! ## Pointers -/

theorem Members.target?_eq_some_iff {root last : Members} {pointer : String} {keys : List String}
    (hkeys : Pointer.keys? pointer = some keys) :
    root.target? pointer = some last ↔ (Value.object root).LeadsTo keys last := by
  rw [target?, hkeys]
  exact Value.leadsTo_iff.symm

/-- The pointer that keys are written in designates the object that the keys lead to. -/
theorem Members.target?_ofKeys (root : Members) {keys : List String} (hne : keys ≠ [])
    {last : Members} :
    root.target? (Pointer.ofKeys keys) = some last ↔ (Value.object root).LeadsTo keys last :=
  target?_eq_some_iff (Pointer.keys?_ofKeys hne)

/-! ### Keys that a pointer could be misread by -/

namespace Pointer.Sample

/-- Objects in one another, under keys that are escapes, hold a slash, or are empty. -/
def nested : Members :=
  [(.text "~1", .record [("a/b", .record [("", .record [("~01", .record
    [("type", .text "object")])])])])]

end Pointer.Sample

theorem Members.target?_ofKeys_sample :
    ["~1", "a/b", "", "~01"] ≠ [] ∧
      Pointer.ofKeys ["~1", "a/b", "", "~01"] = "#/~01/a~1b//~001" ∧
      Pointer.Sample.nested.target? "#/~01/a~1b//~001" = some [(.text "type", .text "object")] := by
  have hne : ["~1", "a/b", "", "~01"] ≠ [] := nofun
  have hpointer : Pointer.ofKeys ["~1", "a/b", "", "~01"] = "#/~01/a~1b//~001" := by decide
  have hleads : (Value.object Pointer.Sample.nested).LeadsTo ["~1", "a/b", "", "~01"]
      [(.text "type", .text "object")] :=
    .on rfl rfl (.on rfl rfl (.on rfl rfl (.on rfl rfl (.here rfl))))
  exact ⟨hne, hpointer, hpointer ▸ (target?_ofKeys Pointer.Sample.nested hne).2 hleads⟩

/-! ## Declared schemas -/

namespace Document

variable {d : Document} {name node : Value} {schemas ms last : Members}

/-- A document declares an object as a schema, under a name among its schemas. -/
structure DeclaresObject (d : Document) (schemas : Members) (name : Value) (ms : Members) :
    Prop where
  among : (Value.object d.root).LeadsTo ["components", "schemas"] schemas
  declared : ∃ key v, name.key = .ok key ∧ schemas.lookup key = some v ∧ v.members? = some ms

/-- The pointer to a schema, in which its name stands as it is told. -/
def schemaPointer (name : String) : String := "#/components/schemas/" ++ name

theorem eq_reference_of_schema (h : d.schema name = .ok node) :
    node = .object [(.text Pointer.member, .text (schemaPointer name.display))] := by
  simp only [schema, Result.bind_eq_ok] at h
  obtain ⟨components, -, declared, -, h⟩ := h
  split at h
  · obtain ⟨shown, hshown, h⟩ := Result.bind_eq_ok.1 h
    unfold Value.told at hshown
    split at hshown <;> cases hshown
    exact (Except.ok.inj h).symm
  · unfold MissingPart.fail Failure.showing at h
    cases h

theorem toList_schemaPointer (name : String) : (schemaPointer name).toList =
    '#' :: '/' :: ("components".toList ++ '/' :: ("schemas".toList ++ '/' :: name.toList)) := by
  unfold schemaPointer
  simp

theorem keys?_schemaPointer (name : String) : Pointer.keys? (schemaPointer name) =
    some (["components", "schemas"] ++ Pointer.parts name.toList) := by
  have hcomponents : String.ofList (Pointer.decode "components".toList) = "components" := by decide
  have hschemas : String.ofList (Pointer.decode "schemas".toList) = "schemas" := by decide
  rw [Pointer.keys?_of_toList (toList_schemaPointer name), Pointer.parts, Pointer.parts,
    Text.splitOn_append_cons (by decide), Text.splitOn_append_cons (by decide), List.map_cons,
    List.map_cons, hcomponents, hschemas, List.cons_append, List.cons_append, List.nil_append]

theorem lastPart_schemaPointer {name : String} (h : '/' ∉ name.toList) :
    Pointer.lastPart (schemaPointer name) = name := by
  have hsplit : Text.splitOn '/' (schemaPointer name).toList =
      [['#'], "components".toList, "schemas".toList, name.toList] := by
    rw [toList_schemaPointer, ← List.singleton_append, Text.splitOn_append_cons (by decide),
      Text.splitOn_append_cons (by decide), Text.splitOn_append_cons (by decide),
      Text.splitOn_of_not_mem h]
  rw [Pointer.lastPart, Text.afterLast, hsplit]
  exact String.ofList_toList

/-- A reference to an object without a reference leads to it. -/
theorem resolve_reference (pointer : String) (htarget : d.root.target? pointer = some ms)
    (hend : ms.get? Pointer.member = none) :
    d.resolve (.object [(.text Pointer.member, .text pointer)]) =
      .ok ⟨some ms, Pointer.lastPart pointer⟩ := by
  have href : Members.get? [(.text Pointer.member, .text pointer)] Pointer.member =
      some (.text pointer) := rfl
  have hnext : ∀ hops name, d.root.follow hops name ms = .ok ⟨some ms, name⟩ := by
    intro hops name
    unfold Members.follow
    rw [hend]
  rw [resolve, Members.resolve_eq]
  show d.root.follow Pointer.greatestHops "" [(.text Pointer.member, .text pointer)] = _
  unfold Members.follow
  simp only [href, htarget]
  exact hnext _ _

/--
A reference to a schema leads where the keys lead that the name is read as, among the schemas. If
the name has no slash and no escape, it leads to what is declared under that name.
-/
theorem resolve_schema (h : d.DeclaresObject schemas name ms) (hnode : d.schema name = .ok node)
    (hend : ms.get? Pointer.member = none) :
    (∀ s, name = .text s → Pointer.Plain s → d.resolve node = .ok ⟨some ms, s⟩) ∧
    ∀ last, (∃ n, d.resolve node = .ok ⟨some last, n⟩) ↔
      ∃ target, (Value.object schemas).LeadsTo (Pointer.parts name.display.toList) target ∧
        ∃ n < Pointer.greatestHops, d.Hops n target last ∧ last.get? Pointer.member = none := by
  have htarget : ∀ target, d.root.target? (schemaPointer name.display) = some target ↔
      (Value.object schemas).LeadsTo (Pointer.parts name.display.toList) target := by
    intro target
    rw [Members.target?_eq_some_iff (keys?_schemaPointer _), h.among.append_iff]
  rw [eq_reference_of_schema hnode]
  constructor
  · rintro s rfl hplain
    obtain ⟨key, v, hkey, hv, hms⟩ := h.declared
    cases hkey
    have hleads : (Value.object schemas).LeadsTo (Pointer.parts s.toList) ms := by
      rw [Pointer.parts_eq_singleton_iff.2 hplain]
      exact .on rfl hv (.here hms)
    have hresolve := resolve_reference (schemaPointer s) ((htarget ms).2 hleads) hend
    rw [lastPart_schemaPointer hplain.slash] at hresolve
    exact hresolve
  · intro last
    rw [exists_resolve_iff rfl]
    constructor
    · rintro ⟨n, hn, hhops, hlast⟩
      cases hhops with
      | here => cases hlast
      | on href hnext hhops =>
        cases href
        exact ⟨_, (htarget _).1 hnext, _, hn, hhops, hlast⟩
    · rintro ⟨target, hleads, n, hn, hhops, hlast⟩
      exact ⟨n + 1, hn, .on rfl ((htarget target).2 hleads) hhops, hlast⟩

/-! ### Two versions of a schema -/

namespace Sample

def machine : Members := [(.text "type", .text "object")]

/-- The schema of a machine, and under a name with a slash that of its second version. -/
def machines : Members :=
  [(.text "Machine", .object machine), (.text "Machine/v2", .object machine)]

def declaring : Document :=
  ⟨[(.text "components", .record [("schemas", .object machines)])], []⟩

theorem machines_declared {name : String} {v : Value} (h : machines.get? name = some v)
    (hv : v.members? = some machine) : declaring.DeclaresObject machines (.text name) machine :=
  ⟨.on rfl rfl (.on rfl rfl (.here rfl)), _, v, rfl, h, hv⟩

/-- The second version is declared and cannot be reached: the slash in its name is read as one. -/
theorem version_unreachable :
    declaring.DeclaresObject machines (.text "Machine/v2") machine ∧
      machine.get? Pointer.member = none ∧
      ∃ node, declaring.schema (.text "Machine/v2") = .ok node ∧
        declaring.resolve node = .ok ⟨none, "v2"⟩ :=
  ⟨machines_declared rfl rfl, rfl, _, rfl, rfl⟩

end Sample

theorem resolve_schema_sample :
    Sample.declaring.DeclaresObject Sample.machines (.text "Machine") Sample.machine ∧
      Sample.machine.get? Pointer.member = none ∧ Pointer.Plain "Machine" ∧
      ∃ node, Sample.declaring.schema (.text "Machine") = .ok node ∧
        Sample.declaring.resolve node = .ok ⟨some Sample.machine, "Machine"⟩ := by
  have hdeclared : Sample.declaring.DeclaresObject Sample.machines (.text "Machine")
      Sample.machine := Sample.machines_declared rfl rfl
  have hend : Sample.machine.get? Pointer.member = none := rfl
  have hplain : Pointer.Plain "Machine" := Pointer.parts_eq_singleton_iff.1 (by decide)
  obtain ⟨node, hnode⟩ : ∃ node, Sample.declaring.schema (.text "Machine") = .ok node := ⟨_, rfl⟩
  exact ⟨hdeclared, hend, hplain, node, hnode,
    (resolve_schema hdeclared hnode hend).1 "Machine" rfl hplain⟩

end Document

end ApiModels
