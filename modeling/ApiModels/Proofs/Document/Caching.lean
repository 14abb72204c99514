/-
ApiModels.Proofs.Document.Caching — what a load leaves in the cache, and what a
later load makes of it.

A value that the host states is kept as its JSON text before it is known whether
it is a document. So a cached load of a document gives what an uncached one gives,
and a later load the same again, exactly if the document is one that JSON text can
state (`cached_iff_native`); and a load that fails leaves the cache as it was,
unless the host stated what is no document (`cache_of_failed_load`).

Both hold for every YAML parser, whatever it gives.
-/
import ApiModels.Document.Source
import ApiModels.Proofs.Json.Native
import ApiModels.Proofs.Value.Reading

namespace ApiModels

open ApiModels.Value (Native plain plainMembers recastMembers)

variable {τ : Type} {v : Value τ} {ms d : Members τ} {text : String}

/-! ## Documents without marks, and as their JSON texts read -/

namespace Members

variable [DecidableEq τ]

theorem has_iff {key : τ} : ms.has key = true ↔ ∃ m ∈ ms, m.1 = .text key := by
  rw [has, get?, lookup, Option.isSome_map, List.find?_isSome]
  simp only [Scalar.same_text_iff]

theorem get?_plainMembers (ms : Members τ) (key : τ) :
    get? (plainMembers ms) key = (get? ms key).map plain := by
  rw [Value.plainMembers_eq_map, get?, get?, lookup, lookup, List.find?_map, Option.map_map,
    Option.map_map]
  rfl

theorem getOr_plainMembers (ms : Members τ) (key : τ) {fallback : Value τ}
    (h : fallback.plain = fallback) :
    getOr (plainMembers ms) key fallback = (getOr ms key fallback).plain := by
  rw [getOr, getOr, get?_plainMembers]
  cases get? ms key with
  | none => exact h.symm
  | some v => rfl

end Members

namespace Value

theorem members?_plain (v : Value τ) : v.plain.members? = v.members?.map plainMembers := by
  induction v using Value.bare.induct with
  | case1 n v ih => exact ih
  | case2 v h =>
    cases v with
    | knot n v => exact absurd rfl (h n v)
    | _ => rfl

theorem members_eq_ok : v.members = .ok ms ↔ v.members? = some ms := by
  unfold members
  cases v.members? with
  | none => exact ⟨nofun, nofun⟩
  | some ns => simp

theorem plain_of_members? (h : v.members? = some ms) : v.plain = .object (plainMembers ms) := by
  rw [← apply_bare (f := plain) (fun _ _ => rfl), bare_of_members? h, plain]

variable [Spelled τ]

/-- A native value shows no number that is too long. -/
theorem canBeTold_of_native {around : List Nat} (h : Native around v) :
    v.plain.canBeTold = true := by
  have hin : ∀ shown : List Nat, v.plain.canBeToldIn shown = true := by
    induction h with
    | int hn => exact fun _ => by simp [plain, canBeToldIn, Scalar.canBeTold, hn]
    | @list _ vs h ih =>
      intro shown
      have hitems : ∀ vs : List (Value τ), (∀ v ∈ vs, v.plain.canBeToldIn shown = true) →
          itemsCanBeTold shown (plainItems vs) = true := by
        intro vs
        induction vs with
        | nil => exact fun _ => rfl
        | cons v vs ihvs =>
          intro hvs
          obtain ⟨hv, hvs⟩ := List.forall_mem_cons.1 hvs
          rw [plainItems, itemsCanBeTold, hv, ihvs hvs, Bool.and_self]
      exact hitems vs fun v hv => ih v hv shown
    | @object _ ms hms h ih =>
      intro shown
      have hmembers : ∀ ms : Members τ, (∀ m ∈ ms, m.1.isText = true) →
          (∀ m ∈ ms, m.2.plain.canBeToldIn shown = true) →
          membersCanBeTold shown (plainMembers ms) = true := by
        intro ms
        induction ms with
        | nil => exact fun _ _ => rfl
        | cons m ms ihms =>
          intro htexts hms
          obtain ⟨htext, htexts⟩ := List.forall_mem_cons.1 htexts
          obtain ⟨hm, hms⟩ := List.forall_mem_cons.1 hms
          obtain ⟨s, hs⟩ := Scalar.isText_iff.1 htext
          rw [plainMembers, membersCanBeTold, hs, hm, ihms htexts hms]
          rfl
      exact hmembers ms hms.texts fun m hm => ih m hm shown
    | knot hn h ih => exact ih
    | _ => exact fun _ => rfl
  exact hin []

/-- The members of a native value are native. -/
theorem native_of_members? {around : List Nat} (h : Native around v) (hms : v.members? = some ms) :
    ∃ around', ∀ m ∈ ms, Native around' m.2 := by
  induction h with
  | @object around ns hkeyed h ih =>
    obtain rfl : ns = ms := Option.some.inj hms
    exact ⟨around, h⟩
  | knot hn h ih => exact ih hms
  | _ => cases hms

variable [DecidableEq τ]

theorem native_getOr {around : List Nat} {fallback : Value τ} (h : ∀ m ∈ ms, Native around m.2)
    (hfallback : Native around fallback) (key : τ) :
    Native around (ms.getOr key fallback) := by
  unfold Members.getOr Members.get? Members.lookup
  cases hfind : List.find? (fun m => m.1.same (.text key)) ms with
  | none => exact hfallback
  | some m => exact h m (List.mem_of_find?_eq_some hfind)

theorem members?_recast (v : Value τ) :
    v.recast.members? = v.members?.map fun ms => Members.ofPairs (recastMembers ms) := by
  induction v using Value.bare.induct with
  | case1 n v ih => exact ih
  | case2 v h =>
    cases v with
    | knot n v => exact absurd rfl (h n v)
    | scalar s => cases s <;> rfl
    | _ => rfl

theorem recast_of_members? (h : v.members? = some ms) :
    v.recast = .object (Members.ofPairs (recastMembers ms)) := by
  rw [← apply_bare (f := recast) (fun _ _ => rfl), bare_of_members? h, recast]

end Value

namespace Source

variable [DecidableEq τ] [Spelled τ] {s : Source τ}

/-- A value is a document if it is an object with paths whose title, if any, can be told. -/
theorem document_eq_ok : s.document v = .ok d ↔
    v.members? = some d ∧ d.has (Spelled.text "paths") = true ∧
      ∃ info, (d.getOr (Spelled.text "info") (.object [])).members? = some info ∧
        (info.getOr (Spelled.text "title") (.text (Spelled.text ""))).canBeTold = true := by
  unfold document
  cases v.members? with
  | none =>
    constructor
    · rintro ⟨⟩
    · rintro ⟨⟨⟩, -⟩
  | some ms =>
    by_cases hpaths : ms.has (Spelled.text "paths") = true
    · simp only [if_pos hpaths, Result.bind_eq_ok, Value.members_eq_ok]
      constructor
      · rintro ⟨info, hinfo, hms⟩
        split at hms
        · rename_i htold
          obtain rfl := Except.ok.inj hms
          exact ⟨rfl, hpaths, info, hinfo, htold⟩
        · cases hms
      · rintro ⟨heq, -, info, hinfo, htold⟩
        obtain rfl := Option.some.inj heq
        exact ⟨info, hinfo, if_pos htold⟩
    · simp only [if_neg hpaths]
      constructor
      · rintro ⟨⟩
      · rintro ⟨heq, hpaths', -⟩
        exact absurd (Option.some.inj heq ▸ hpaths') hpaths

/-- A native document is one without its marks, too. -/
theorem document_plain {around : List Nat} (hnative : Native around v) (h : s.document v = .ok d) :
    s.document v.plain = .ok (plainMembers d) := by
  obtain ⟨hms, hpaths, info, hinfo, -⟩ := document_eq_ok.1 h
  obtain ⟨around, hmembers⟩ := Value.native_of_members? hnative hms
  have hinfoNative := Value.native_getOr hmembers
    (.object Members.named_nil (List.forall_mem_nil _) : Native around (.object []))
    (Spelled.text "info")
  obtain ⟨around', hinfoMembers⟩ := Value.native_of_members? hinfoNative hinfo
  have htold := Value.canBeTold_of_native (Value.native_getOr hinfoMembers
    (.text (Spelled.apart_text "")) (Spelled.text "title"))
  refine document_eq_ok.2 ⟨?_, ?_, plainMembers info, ?_, ?_⟩
  · rw [Value.members?_plain, hms, Option.map_some]
  · rwa [Members.has, Members.get?_plainMembers, Option.isSome_map]
  · rw [Members.getOr_plainMembers d _ rfl, Value.members?_plain, hinfo, Option.map_some]
  · rwa [Members.getOr_plainMembers info _ rfl]

/-- A value is refused as a document exactly if it is no object with paths. -/
theorem document_eq_fail {problem : LoadProblem} : s.document v = s.fail problem ↔
    problem = .notADocument ∧
      ∀ ms, v.members? = some ms → ms.has (Spelled.text "paths") = false := by
  unfold document
  cases v.members? with
  | none =>
    constructor
    · intro h
      cases h
      refine ⟨rfl, ?_⟩
      rintro _ ⟨⟩
    · rintro ⟨rfl, -⟩
      rfl
  | some ms =>
    simp only [Option.some.injEq, forall_eq']
    cases ms.has (Spelled.text "paths") with
    | false =>
      constructor
      · intro h
        cases h
        exact ⟨rfl, rfl⟩
      · rintro ⟨rfl, -⟩
        rfl
    | true =>
      -- Where there are paths, a document fails for what it says of itself alone.
      simp only [if_true, Bool.true_eq_false, and_false, iff_false, Value.members]
      cases (ms.getOr (Spelled.text "info") (.object [])).members? with
      | none => rintro ⟨⟩
      | some info =>
        simp only [bind, Except.bind]
        split <;> rintro ⟨⟩

/-- No key but the text itself is read as the text of paths. -/
theorem eq_text_of_keyText {k : Scalar τ}
    (h : Spelled.joined (Json.keyText k) = Spelled.text "paths") :
    k = .text (Spelled.text "paths") := by
  have hother : Spelled.joined (Spelled.text ((Json.scalar k).toOption.getD "") : τ) ≠
      Spelled.text "paths" := by
    rw [Spelled.joined_text]
    intro heq
    have hpaths := Spelled.text_inj heq
    cases hk : Json.scalar k with
    | error cause =>
      rw [hk] at hpaths
      exact absurd hpaths (by decide : "" ≠ "paths")
    | ok t =>
      rw [hk] at hpaths
      obtain rfl : t = "paths" := hpaths
      have hread := Json.reads_scalar hk 5 [] (by decide) Json.delimited_nil
      have hnone : (Json.value 5 ("paths".toList ++ []) : Json.Read (Value τ)) =
          .error .badSyntax := rfl
      rw [hnone] at hread
      cases hread
  cases k with
  | text t => exact congrArg Scalar.text (Spelled.eq_text_of_joined (by simp) h)
  | _ => exact absurd h hother

/-- What is no document is none as its JSON text reads. -/
theorem document_recast (h : s.document v = s.fail .notADocument) :
    s.document v.recast = s.fail .notADocument := by
  obtain ⟨-, h⟩ := document_eq_fail.1 h
  refine document_eq_fail.2 ⟨rfl, fun ns hns => ?_⟩
  rw [Value.members?_recast, Option.map_eq_some_iff] at hns
  obtain ⟨ms, hms, rfl⟩ := hns
  refine Bool.eq_false_iff.2 fun hpaths => ?_
  obtain ⟨m, hm, hkey⟩ := Members.has_iff.1 hpaths
  obtain ⟨⟨p, hp, hpkey⟩, -⟩ := Members.mem_ofPairs hm
  rw [Value.recastMembers_eq_map] at hp
  obtain ⟨q, hq, rfl⟩ := List.mem_map.1 hp
  have hq' : q.1 = .text (Spelled.text "paths") :=
    eq_text_of_keyText (Scalar.text.inj (hpkey.trans hkey))
  exact Bool.false_ne_true ((h ms hms).symm.trans (Members.has_iff.2 ⟨q, hq, hq'⟩))

end Source

/-! ## What is kept, and what is made of it -/

namespace Cache

/-- The cache when what it holds has become so many nanoseconds old. -/
def aged (c : Cache) (age : Int) : Cache := { c with entry := c.entry.map fun e => { e with age } }

variable [Spelled τ]

theorem save_of_print {c : Cache} (hwritable : c.writable = true)
    (h : Json.print .line v = .ok text) :
    c.save v = (.ok (), { c with entry := some { text } }) := by
  rw [save, if_pos hwritable, h]

theorem save_of_stop {c : Cache} {stop : Json.Unfinished} (hwritable : c.writable = true)
    (h : Json.print .line v = .error stop) :
    c.save v = (.error stop.cause, { c with entry := some { text := stop.written } }) := by
  rw [save, if_pos hwritable, h]

variable [DecidableEq τ]

/-- What is kept is found again as its JSON text reads. -/
theorem fresh_of_print (writable : Bool) {age : Int} (h : Json.print .line v = .ok text)
    (hage : age ≤ lifetime) (hnull : v.recast ≠ .null) :
    fresh ⟨some { text, age }, writable⟩ = .ok (some v.recast) := by
  rw [fresh]
  simp only [if_pos hage, read, Json.parse_print h, Except.map]
  split
  · rename_i heq
    exact absurd (Option.some.inj heq) hnull
  · rfl

/-- Where null is kept, nothing is found. -/
theorem fresh_of_null (writable : Bool) {age : Int} (h : Json.print .line v = .ok text)
    (hage : age ≤ lifetime) (hnull : v.recast = .null) :
    fresh ⟨some { text, age }, writable⟩ = .ok (none : Option (Value τ)) := by
  rw [fresh]
  simp only [if_pos hage, read, Json.parse_print h, Except.map, hnull]

end Cache

namespace Source

variable [DecidableEq τ] [Spelled τ] {s : Source τ} {files : Files} {c : Cache} {force : Bool}
  {reply : Reply}

/-- The value that a host's answer states. -/
def stated (s : Source τ) : Reply → Result (Value τ)
  | .failed reason => s.fail (.unreachable reason)
  | .page contentType text => s.parse (isJsonType contentType) text

/-- The host is asked: the cache is not looked into, or holds nothing that is new enough. -/
def Asks (s : Source τ) (c : Cache) (force : Bool) : Prop :=
  (if s.useCache && !force then c.fresh else .ok none) = .ok (none : Option (Value τ))

theorem fetch_of_error {e : Failure} (h : s.stated reply = .error e) :
    s.fetch c reply = (.error e, c) := by
  cases reply with
  | failed reason => exact Prod.ext h rfl
  | page contentType text =>
    have hparse : s.parse (isJsonType contentType) text = .error e := h
    rw [fetch, hparse]

theorem fetch_of_ok (h : s.stated reply = .ok v) : s.fetch c reply =
    if s.useCache then ((c.save v).1.map fun _ => v, (c.save v).2) else (.ok v, c) := by
  cases reply with
  | failed reason => cases h
  | page contentType text =>
    have hparse : s.parse (isJsonType contentType) text = .ok v := h
    rw [fetch, hparse]

theorem load_of_asks (hremote : s.isRemote = true) (h : s.Asks c force) :
    s.load files c force reply =
      ⟨(s.fetch c reply).1.bind s.document, true, (s.fetch c reply).2⟩ := by
  unfold Asks at h
  rw [load, if_pos hremote, h]

theorem load_of_fresh (hremote : s.isRemote = true) (hcache : s.useCache = true)
    (h : c.fresh = .ok (some v)) : s.load files c false reply = ⟨s.document v, false, c⟩ := by
  simp only [load, if_pos hremote, hcache, Bool.not_false, Bool.and_self, if_true, h]

/-- A load that does not ask the host leaves the cache as it was. -/
theorem cache_of_not_asks (hremote : s.isRemote = true) (h : ¬ s.Asks c force) :
    (s.load files c force reply).cache = c := by
  unfold Asks at h
  rw [load, if_pos hremote]
  split
  · rfl
  · rfl
  · rename_i hnone
    exact absurd hnone h

/-- An uncached load gives the document that the host states. -/
theorem load_uncached (hremote : s.isRemote = true) :
    ({ s with useCache := false }.load files c force reply).result =
      (s.stated reply).bind s.document := by
  have hasks : { s with useCache := false }.Asks c force := rfl
  have hstated : { s with useCache := false }.stated reply = s.stated reply := rfl
  rw [load_of_asks (s := { s with useCache := false }) hremote hasks]
  cases h : s.stated reply with
  | error e =>
    rw [fetch_of_error (hstated.trans h)]
    rfl
  | ok v =>
    rw [fetch_of_ok (hstated.trans h)]
    rfl

theorem stated_of_uncached (hremote : s.isRemote = true)
    (h : ({ s with useCache := false }.load files c force reply).result = .ok d) :
    ∃ v, s.stated reply = .ok v ∧ s.document v = .ok d :=
  Result.bind_eq_ok.1 ((load_uncached hremote).symm.trans h)

/-! ## Loads of documents -/

theorem asks_empty (s : Source τ) (force writable : Bool) : s.Asks ⟨none, writable⟩ force := by
  unfold Asks
  split <;> rfl

/-- What is stated and has a JSON text is loaded and kept. -/
theorem load_of_print (hremote : s.isRemote = true) (hcache : s.useCache = true)
    (hwritable : c.writable = true) (hasks : s.Asks c force) (hstated : s.stated reply = .ok v)
    (h : Json.print .line v = .ok text) :
    s.load files c force reply = ⟨s.document v, true, { c with entry := some { text } }⟩ := by
  rw [load_of_asks hremote hasks, fetch_of_ok hstated, if_pos hcache,
    Cache.save_of_print hwritable h]
  rfl

/-- What is stated and has no JSON text is not loaded, but what was written of it is kept. -/
theorem load_of_stop {stop : Json.Unfinished} (hremote : s.isRemote = true)
    (hcache : s.useCache = true) (hwritable : c.writable = true) (hasks : s.Asks c force)
    (hstated : s.stated reply = .ok v) (h : Json.print .line v = .error stop) :
    s.load files c force reply =
      ⟨.error stop.cause, true, { c with entry := some { text := stop.written } }⟩ := by
  rw [load_of_asks hremote hasks, fetch_of_ok hstated, if_pos hcache,
    Cache.save_of_stop hwritable h]
  rfl

/-- What is kept is loaded as its JSON text reads, for as long as it is new enough. -/
theorem load_again (hremote : s.isRemote = true) (hcache : s.useCache = true)
    (h : Json.print .line v = .ok text) (hnull : v.recast ≠ .null) {age : Int}
    (hage : age ≤ Cache.lifetime) (writable : Bool) (later : Reply) :
    s.load files (Cache.aged ⟨some { text }, writable⟩ age) false later =
      ⟨s.document v.recast, false, Cache.aged ⟨some { text }, writable⟩ age⟩ :=
  load_of_fresh hremote hcache (Cache.fresh_of_print writable h hage hnull)

/-- What a host states in JSON is native. -/
theorem native_of_stated {contentType page : String} (hjson : isJsonType contentType = true)
    (h : s.stated (.page contentType page) = .ok v) : Native [] v := by
  rw [stated, hjson, parse, if_pos rfl] at h
  split at h
  · rename_i hparse
    obtain rfl := Except.ok.inj h
    exact Json.native_of_parse hparse
  · cases h
  · cases h

/--
A document that an uncached load gives is given by a cached one, with an empty cache, and by all
later ones as long as what is kept is new enough, exactly if it is one that JSON text can state. So
is every document that the host states in JSON.
-/
theorem cached_iff_native (hremote : s.isRemote = true) (hcache : s.useCache = true)
    (huncached : ({ s with useCache := false }.load files c force reply).result = .ok d) :
    ∃ v, s.stated reply = .ok v ∧ v.members? = some d ∧
      (((s.load files {} false reply).result = .ok d ∧
        ∀ age ≤ Cache.lifetime, ∀ later,
          let again := s.load files ((s.load files {} false reply).cache.aged age) false later
          again.fetched = false ∧ again.result = .ok (plainMembers d)) ↔ Native [] v) ∧
      ∀ contentType text, reply = .page contentType text → isJsonType contentType = true →
        Native [] v := by
  obtain ⟨v, hstated, hdocument⟩ := stated_of_uncached hremote huncached
  have hms := (document_eq_ok.1 hdocument).1
  have hasks := asks_empty s false true
  refine ⟨v, hstated, hms, ?_, ?_⟩
  · cases hprint : Json.print .line v with
    | error stop =>
      rw [load_of_stop hremote hcache rfl hasks hstated hprint]
      constructor
      · rintro ⟨⟨⟩, -⟩
      · intro hnative
        obtain ⟨text, htext⟩ := Json.print_of_native hnative
        rw [htext] at hprint
        cases hprint
    | ok text =>
      have hrecast := Value.recast_of_members? hms
      have hnull : v.recast ≠ .null := hrecast ▸ nofun
      rw [load_of_print hremote hcache rfl hasks hstated hprint, Json.native_iff_recast hprint]
      constructor
      · rintro ⟨-, hagain⟩
        have hlater := (hagain 0 (by decide) (.failed "")).2
        rw [load_again hremote hcache hprint hnull (by decide)] at hlater
        have hmembers := (document_eq_ok.1 hlater).1
        rw [hrecast] at hmembers
        rw [hrecast, Value.plain_of_members? hms, Option.some.inj hmembers]
      · intro heq
        refine ⟨hdocument, fun age hage later => ?_⟩
        rw [load_again hremote hcache hprint hnull hage, heq]
        exact ⟨rfl, document_plain ((Json.native_iff_recast hprint).2 heq) hdocument⟩
  · rintro contentType text rfl hjson
    exact native_of_stated hjson hstated

namespace Sample

/-- A document with an operation that has a response under some code. -/
def responding (code : Scalar Letters) : Members Letters :=
  [(.text "paths", .object [(.text "/a/", .object [(.text "get", .object [(.text "responses",
    .object [(code, .object [(.text "description", .text "ok")])])])])])]

/-- A document with a summary. -/
def summed (summary : Letters) : Members Letters :=
  [(.text "paths", .object []), (.text "info", .object [(.text "summary", .text summary)])]

/-- A document with a date. -/
def dated : Members Letters :=
  [(.text "paths", .object []), (.text "since", .scalar (.date ⟨2020, 1, 31, none⟩))]

/-- The two halves of a character, one behind the other. -/
def halves : Letters := [.high ⟨0x3D, by decide⟩, .low ⟨0x200, by decide⟩]

/-- A number as a key, in YAML. -/
def numberedText : String :=
  "paths: \x7b/a/: \x7bget: \x7bresponses: \x7b200: \x7bdescription: ok\x7d\x7d\x7d\x7d\x7d\n"

/-- The two halves of a character as codes, in YAML. -/
def halvedText : String := "paths: \x7b\x7d\ninfo: \x7bsummary: \"\\uD83D\\uDE00\"\x7d\n"

/-- A date, in YAML. -/
def datedText : String := "paths: \x7b\x7d\nsince: 2020-01-31\n"

/-- What the texts above state; of others nothing is said. -/
def readSample (text : String) : Yaml.Reading (Value Letters) :=
  if text = numberedText then .ok (.object (responding (.int 200)))
  else if text = halvedText then .ok (.object (summed halves))
  else if text = datedText then .ok (.object dated)
  else .error .unreadable

/-- A host that is asked over the network. -/
def host : Source Letters :=
  { location := "https://api.example.com/schema/", yaml := ⟨readSample, readSample⟩ }

theorem remote : host.isRemote = true := by decide

/-- A document without any paths. -/
def bare : Value Letters := .object [(.text "paths", .object [])]

theorem print_bare : Json.print .line bare = .ok "\x7b\"paths\": \x7b\x7d\x7d" := rfl

/-- The document, as a host states it in JSON. -/
def bareReply : Reply := .page "application/json" "\x7b\"paths\": \x7b\x7d\x7d"

theorem stated_of_print {v : Value Letters} (h : Json.print .line v = .ok text) :
    host.stated (.page "application/json" text) = .ok v.recast := by
  have hjson : isJsonType "application/json" = true := by decide
  rw [stated, hjson, parse, if_pos rfl, Json.parse_print h]

theorem stated_bare : host.stated bareReply = .ok bare := stated_of_print print_bare

theorem cached_iff_native_bare : ∃ v, host.stated bareReply = .ok v ∧ Native [] v ∧
    (host.load [] {} false bareReply).result = .ok [(.text "paths", .object [])] ∧
    ∀ age ≤ Cache.lifetime, ∀ later,
      let again := host.load [] ((host.load [] {} false bareReply).cache.aged age) false later
      again.fetched = false ∧ again.result = .ok [(.text "paths", .object [])] := by
  have huncached : ({ host with useCache := false }.load [] {} false bareReply).result =
      .ok [(.text "paths", .object [])] := by
    rw [load_uncached remote, stated_bare]
    rfl
  obtain ⟨v, hstated, -, hiff, hjson⟩ := cached_iff_native remote rfl huncached
  have hnative := hjson _ _ rfl (by decide)
  exact ⟨v, hstated, hnative, hiff.2 hnative⟩

/-- A text, as a host states it in YAML. -/
def yamlReply (text : String) : Reply := .page "application/yaml" text

theorem stated_of_read {v : Value Letters} (h : readSample text = .ok v) :
    host.stated (yamlReply text) = .ok v := by
  have hyaml : isJsonType "application/yaml" = false := by decide
  have hread : host.yaml.parse text = .ok v := h
  rw [yamlReply, stated, hyaml, parse, if_neg Bool.false_ne_true, hread]

/-- What a load gives that does not use a cache. -/
def uncached (reply : Reply) : Result (Members Letters) :=
  ({ host with useCache := false }.load [] {} false reply).result

/-- What a load gives after one that found the cache empty. -/
def again (reply later : Reply) : Result (Members Letters) :=
  (host.load [] (host.load [] {} false reply).cache false later).result

theorem uncached_of_read {v : Value Letters} (h : readSample text = .ok v) :
    uncached (yamlReply text) = host.document v := by
  rw [uncached, load_uncached remote, stated_of_read h]
  rfl

/-- What is stated is loaded again as its JSON text reads. -/
theorem again_of_read {v : Value Letters} (h : readSample text = .ok v)
    (hprint : (Json.print .line v).isOk = true) (hnull : v.recast ≠ .null) (later : Reply) :
    again (yamlReply text) later = host.document v.recast := by
  cases hwritten : Json.print .line v with
  | error stop =>
    rw [hwritten] at hprint
    cases hprint
  | ok written =>
    have hagain : host.load [] (Cache.aged ⟨some { text := written }, true⟩ 0) false later = _ :=
      load_again remote rfl hwritten hnull (by decide) true later
    rw [again, load_of_print remote rfl rfl (asks_empty host false true) (stated_of_read h)
      hwritten]
    exact congrArg Loading.result hagain

theorem recast_numbered :
    (Value.object (responding (.int 200))).recast = .object (responding (.text "200")) := by
  have hkey : Json.keyText (.int 200 : Scalar Letters) = Spelled.text "200" := by decide +kernel
  simp only [responding, Value.recast, recastMembers, hkey]
  rfl

theorem recast_halved : (Value.object (summed halves)).recast =
    .object (summed (Letters.ofString "😀")) := rfl

/--
A key that is a number comes back from the cache as a text, and two halves of a character as the
character. A date has no JSON text: then the load that fills the cache fails, though the document is
there.
-/
theorem cached_apart :
    (uncached (yamlReply numberedText) = .ok (responding (.int 200)) ∧
      ∀ later, again (yamlReply numberedText) later = .ok (responding (.text "200"))) ∧
    responding (.int 200) ≠ responding (.text "200") ∧
    (uncached (yamlReply halvedText) = .ok (summed halves) ∧
      ∀ later, again (yamlReply halvedText) later = .ok (summed (Letters.ofString "😀"))) ∧
    summed halves ≠ summed (Letters.ofString "😀") ∧
    uncached (yamlReply datedText) = .ok dated ∧
      (host.load [] {} false (yamlReply datedText)).result = .error .wrongShape := by
  have hnumbered : readSample numberedText = .ok (.object (responding (.int 200))) := if_pos rfl
  have hhalved : readSample halvedText = .ok (.object (summed halves)) := by
    rw [readSample, if_neg (by decide), if_pos rfl]
  have hdated : readSample datedText = .ok (.object dated) := by
    rw [readSample, if_neg (by decide), if_neg (by decide), if_pos rfl]
  refine ⟨⟨?_, fun later => ?_⟩, nofun, ⟨?_, fun later => ?_⟩, nofun, ?_, ?_⟩
  · rw [uncached_of_read hnumbered]
    rfl
  · rw [again_of_read hnumbered (by decide +kernel) (recast_numbered ▸ nofun), recast_numbered]
    rfl
  · rw [uncached_of_read hhalved]
    rfl
  · rw [again_of_read hhalved (by decide +kernel) (recast_halved ▸ nofun), recast_halved]
    rfl
  · rw [uncached_of_read hdated]
    rfl
  · rw [load_of_stop remote rfl rfl (asks_empty host false true) (stated_of_read hdated) rfl]

end Sample

/-! ## Loads that fail -/

/-- What the host states is no document, and is kept. -/
structure Spoils (s : Source τ) (c : Cache) (force : Bool) (reply : Reply) (v : Value τ)
    (text : String) : Prop where
  cached : s.useCache = true
  writable : c.writable = true
  asks : s.Asks c force
  stated : s.stated reply = .ok v
  refused : s.document v = s.fail .notADocument
  printed : Json.print .line v = .ok text

/-- What spoils the cache is what the next load is refused for, unless it is null. -/
theorem Spoils.load_again (h : s.Spoils c force reply v text) (hremote : s.isRemote = true)
    {age : Int} (hage : age ≤ Cache.lifetime) (later : Reply) :
    let again := s.load files (Cache.aged { entry := some { text } } age) false later
    (v.recast ≠ .null → again.fetched = false ∧ again.result = s.fail .notADocument) ∧
      (v.recast = .null → again.fetched = true) := by
  refine ⟨fun hnull => ?_, fun hnull => ?_⟩
  · rw [Source.load_again hremote h.cached h.printed hnull hage]
    exact ⟨rfl, document_recast h.refused⟩
  · have hasks : s.Asks (Cache.aged { entry := some { text } } age) false := by
      unfold Asks
      rw [h.cached]
      exact Cache.fresh_of_null true h.printed hage hnull
    rw [load_of_asks hremote hasks]

/--
A load that fails leaves the cache as it was, unless the host has stated what is no document: that
is kept, and every later load is refused for it as long as it is new enough, whatever the host would
answer. Null alone is not found in the cache again.
-/
theorem cache_of_failed_load {problem : LoadProblem} (hremote : s.isRemote = true)
    (hfailed : (s.load files c force reply).result = s.fail problem) :
    ((s.load files c force reply).cache = c ∧ ∀ v text, ¬ s.Spoils c force reply v text) ∨
      ∃ v text, s.Spoils c force reply v text ∧
        (s.load files c force reply).cache = { entry := some { text } } ∧
        ∀ age ≤ Cache.lifetime, ∀ later,
          let again := s.load files ((s.load files c force reply).cache.aged age) false later
          (v.recast ≠ .null → again.fetched = false ∧ again.result = s.fail .notADocument) ∧
            (v.recast = .null → again.fetched = true) := by
  by_cases hasks : s.Asks c force
  case neg => exact .inl ⟨cache_of_not_asks hremote hasks, fun _ _ h => hasks h.asks⟩
  cases hstated : s.stated reply with
  | error e =>
    refine .inl ⟨?_, fun _ _ h => ?_⟩
    · rw [load_of_asks hremote hasks, fetch_of_error hstated]
    · exact nomatch hstated.symm.trans h.stated
  | ok v =>
    by_cases hcache : s.useCache = true
    case neg =>
      refine .inl ⟨?_, fun _ _ h => hcache h.cached⟩
      rw [load_of_asks hremote hasks, fetch_of_ok hstated, if_neg hcache]
    by_cases hwritable : c.writable = true
    case neg =>
      refine .inl ⟨?_, fun _ _ h => hwritable h.writable⟩
      rw [load_of_asks hremote hasks, fetch_of_ok hstated, if_pos hcache, Cache.save,
        if_neg hwritable]
    cases hprint : Json.print .line v with
    | error stop =>
      rw [load_of_stop hremote hcache hwritable hasks hstated hprint] at hfailed
      have hstop := Json.stops_print Json.tells_line v stop hprint
      rw [Except.error.inj hfailed] at hstop
      cases hstop
    | ok text =>
      have hload : s.load files c force reply = _ :=
        load_of_print hremote hcache hwritable hasks hstated hprint
      rw [hload] at hfailed
      obtain ⟨rfl, -⟩ := document_eq_fail.1 hfailed
      have hspoils : s.Spoils c force reply v text :=
        ⟨hcache, hwritable, hasks, hstated, hfailed, hprint⟩
      have hkept : (s.load files c force reply).cache = { entry := some { text } } := by
        rw [hload, hwritable]
      refine .inr ⟨v, text, hspoils, hkept, fun age hage later => ?_⟩
      rw [hkept]
      exact hspoils.load_again hremote hage later

namespace Sample

/-- A list, which is no document, as a host states it in JSON. -/
def listReply : Reply := .page "application/json" "[]"

theorem print_list : Json.print .line (.list [] : Value Letters) = .ok "[]" := rfl

theorem stated_list : host.stated listReply = .ok (.list []) := stated_of_print print_list

theorem load_list : host.load [] {} false listReply =
    ⟨host.fail .notADocument, true, { entry := some { text := "[]" } }⟩ :=
  load_of_print remote rfl rfl (asks_empty host false true) stated_list print_list

theorem cache_of_failed_load_list :
    host.Spoils {} false listReply (.list []) "[]" ∧
      ∀ age ≤ Cache.lifetime, ∀ later,
        let again := host.load [] ((host.load [] {} false listReply).cache.aged age) false later
        again.fetched = false ∧ again.result = host.fail .notADocument := by
  have hspoils : host.Spoils {} false listReply (.list []) "[]" :=
    ⟨rfl, rfl, asks_empty host false true, stated_list, rfl, print_list⟩
  have hfailed : (host.load [] {} false listReply).result = host.fail .notADocument := by
    rw [load_list]
  refine ⟨hspoils, fun age hage later => ?_⟩
  rcases cache_of_failed_load remote hfailed with ⟨-, hclean⟩ | ⟨v, text, hv, -, hagain⟩
  · exact absurd hspoils (hclean _ _)
  · obtain rfl := Except.ok.inj (hv.stated.symm.trans stated_list)
    exact (hagain age hage later).1 nofun

/-- A list is kept as what was loaded, and refused again though the host has a document by then. -/
theorem list_kept :
    (host.load [] {} false listReply).result = host.fail .notADocument ∧
      (host.load [] {} false listReply).cache = { entry := some { text := "[]" } } ∧
      (host.load [] {} false bareReply).result = .ok [(.text "paths", .object [])] ∧
      (host.load [] (host.load [] {} false listReply).cache false bareReply).result =
        host.fail .notADocument := by
  refine ⟨?_, ?_, ?_, ?_⟩
  · rw [load_list]
  · rw [load_list]
  · rw [load_of_print remote rfl rfl (asks_empty host false true) stated_bare print_bare]
    rfl
  · have hagain : host.load [] (Cache.aged ⟨some { text := "[]" }, true⟩ 0) false bareReply = _ :=
      load_again remote rfl print_list nofun (by decide) true bareReply
    rw [load_list]
    exact congrArg Loading.result hagain

end Sample

end Source

end ApiModels
