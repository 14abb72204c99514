/-
ApiModels.Proofs.Extract.FilterNames — the names of filters.

The parameters of an operation stand on two levels: those that its path
shares among all operations, and its own (`Document.Levels`). A parameter of
either level that declares a filter (`Filter.Declares`) yields one, and
nothing joins the two levels by name. So where no level repeats a parameter,
the names are in order, and they strictly increase exactly if no name is
declared on both levels (`Filter.ascending_iff`); a name that is, has two
filters (`Filter.Sample.state_twice`).
-/
import ApiModels.Proofs.Document.Regular
import ApiModels.Proofs.Extract.Stated

namespace ApiModels

/-! ## The two levels -/

namespace Document

variable {d : Document}

/-- The parameters of an operation: those that its path shares, and its own. -/
def Levels (d : Document) (id : Value) (shared own : List Members) : Prop :=
  ∃ o raws, d.operation id = .ok o ∧ (o.spec.get "parameters").itemsOrNone = .ok raws ∧
    d.resolveParameters o.pathParameters = .ok shared ∧ d.resolveParameters raws = .ok own

theorem resolveParameters_append {raws raws' : List Value} :
    ∀ {params params' : List Members}, d.resolveParameters raws = .ok params →
      d.resolveParameters raws' = .ok params' →
      d.resolveParameters (raws ++ raws') = .ok (params ++ params') := by
  induction raws with
  | nil =>
    intro params params' h h'
    cases h
    exact h'
  | cons raw rest ih =>
    intro params params' h h'
    simp only [resolveParameters, Result.bind_eq_ok] at h
    obtain ⟨found, hfound, others, hothers, h⟩ := h
    simp only [List.cons_append, resolveParameters, Result.bind_eq_ok]
    refine ⟨found, hfound, _, ih hothers h', ?_⟩
    split at h <;> cases h <;> rfl

theorem Levels.parameters {id : Value} {shared own : List Members} (h : d.Levels id shared own) :
    d.parameters id = .ok (shared ++ own) := by
  obtain ⟨o, raws, ho, hraws, hshared, hown⟩ := h
  simp only [Document.parameters, Result.bind_eq_ok]
  exact ⟨o, ho, raws, hraws, resolveParameters_append hshared hown⟩

end Document

theorem Value.eq_text_of_key {v : Value} {s : String} (h : v.key = .ok (.text s)) :
    v = .text s := by
  unfold key at h
  split at h
  · cases h
    rfl
  · simp only [Result.bind_eq_ok] at h
    obtain ⟨_, -, _, -, h⟩ := h
    cases h
  · cases h

namespace Filter

variable {d : Document} {id : Value}

/-- No two parameters of a list have the same name in the same place. -/
def Unrepeated (params : List Members) : Prop :=
  params.Pairwise fun p q => ¬ (p.get "name" = q.get "name" ∧ p.get "in" = q.get "in")

/-! ## Parameters that declare filters -/

/-- A parameter that declares a filter is read as that filter, if it can be read. -/
theorem Declares.eq_some {x : Extractor} {param : Members} {f : Filter} (h : Declares x param f)
    {found : Option Filter} (hfound : ofParameter x id param = .ok found) :
    ∃ description, found = some { f with description } := by
  obtain ⟨schema, n, t, values, hresolve, ht, harray, hobject, htype, hvalues, henum⟩ := h.typed
  have hquery : ¬ ((param.get "in").text? != some "query") = true := by
    rw [h.query]
    decide
  have hgiven : ¬ (!(param.getOr "name" (.text "")).given) = true := by simp [h.given]
  have hfilters : ¬ (ignored.any fun s => f.name.same (.text s)) = true := by
    rw [filtering_iff.2 h.filtering]
    decide
  rw [ofParameter, if_neg hquery] at hfound
  dsimp only at hfound
  rw [if_neg hgiven, Result.bind_eq_ok] at hfound
  obtain ⟨name, hname, hfound⟩ := hfound
  cases h.name.symm.trans hname
  rw [if_neg hfilters, Result.bind_eq_ok] at hfound
  obtain ⟨reached, hreached, hfound⟩ := hfound
  cases hresolve.symm.trans hreached
  simp only [Result.bind_eq_ok] at hfound
  obtain ⟨t', ht', hfound⟩ := hfound
  cases ht.symm.trans ht'
  split at hfound
  · exact absurd rfl harray
  · exact absurd rfl hobject
  simp only [Result.bind_eq_ok] at hfound
  obtain ⟨text, -, values', hvalues', enum, henum', hfound⟩ := hfound
  cases hvalues.symm.trans hvalues'
  cases henum.symm.trans henum'
  cases hfound
  rw [← htype]
  exact ⟨_, rfl⟩

theorem described_eq (resource : String) (f : Filter) :
    ∃ description, described resource f = { f with description } := by
  unfold described
  split
  · exact ⟨f.description, rfl⟩
  · exact ⟨_, rfl⟩

/-- A declaration leaves open how a filter is described. -/
theorem Declares.described {x : Extractor} {param : Members} {f : Filter} (h : Declares x param f)
    (resource : String) : Declares x param (described resource f) := by
  obtain ⟨description, heq⟩ := described_eq resource f
  rw [heq]
  exact ⟨h.query, h.given, h.name, h.filtering, h.typed⟩

/-- Each parameter that declares a filter is among those that were read. -/
theorem exists_of_declares {x : Extractor} {params : List Members} :
    ∀ {filters : List Filter}, ofParameters x id params = .ok filters →
      ∀ param ∈ params, ∀ f, Declares x param f →
        ∃ description, { f with description } ∈ filters := by
  induction params with
  | nil => exact fun _ => nofun
  | cons first rest ih =>
    intro filters h
    simp only [ofParameters, Result.bind_eq_ok] at h
    obtain ⟨found, hfound, others, hothers, h⟩ := h
    cases h
    refine List.forall_mem_cons.2 ⟨fun f hf => ?_, fun param hparam f hf => ?_⟩
    · obtain ⟨description, rfl⟩ := hf.eq_some hfound
      exact ⟨description, List.mem_append_left _ (by simp)⟩
    · obtain ⟨description, hmem⟩ := ih hothers param hparam f hf
      exact ⟨description, List.mem_append_right _ hmem⟩

theorem ofParameters_append {x : Extractor} {params params' : List Members} :
    ∀ {filters : List Filter}, ofParameters x id (params ++ params') = .ok filters →
      ∃ first second, ofParameters x id params = .ok first ∧
        ofParameters x id params' = .ok second ∧ filters = first ++ second := by
  induction params with
  | nil => exact fun h => ⟨[], _, rfl, h, rfl⟩
  | cons param rest ih =>
    intro filters h
    simp only [List.cons_append, ofParameters, Result.bind_eq_ok] at h
    obtain ⟨found, hfound, others, hothers, h⟩ := h
    obtain ⟨first, second, hfirst, hsecond, rfl⟩ := ih hothers
    cases h
    refine ⟨found.toList ++ first, second, ?_, hsecond, (List.append_assoc ..).symm⟩
    simp only [ofParameters, Result.bind_eq_ok]
    exact ⟨found, hfound, first, hfirst, rfl⟩

/-! ## Names that differ -/

/-- No text names both filters. -/
def Apart (f g : Filter) : Prop := ∀ s, f.name = .text s → g.name ≠ .text s

theorem Apart.symm {f g : Filter} (h : Apart f g) : Apart g f :=
  fun s hg hf => h s hf hg

/-- The name of a filter that a text names is that text in the parameter. -/
theorem Declares.get_name {x : Extractor} {param : Members} {f : Filter} (h : Declares x param f)
    {s : String} (hs : f.name = .text s) : param.get "name" = .text s := by
  have hname := h.name
  have hgiven := h.given
  rw [hs] at hname
  rw [Members.getOr] at hname hgiven
  rw [Members.get]
  cases hfound : param.get? "name" with
  | none =>
    rw [hfound] at hgiven
    cases hgiven
  | some v =>
    rw [hfound] at hname
    exact Value.eq_text_of_key hname

/-- The filters of a list that repeats no parameter are named apart. -/
theorem apart_of_unrepeated {x : Extractor} {params : List Members} :
    ∀ {filters : List Filter}, Unrepeated params → ofParameters x id params = .ok filters →
      filters.Pairwise Apart := by
  induction params with
  | nil =>
    intro filters _ h
    cases h
    exact .nil
  | cons param rest ih =>
    intro filters hparams h
    obtain ⟨hfirst, hrest⟩ := List.pairwise_cons.1 hparams
    simp only [ofParameters, Result.bind_eq_ok] at h
    obtain ⟨found, hfound, others, hothers, h⟩ := h
    cases h
    refine List.pairwise_append.2 ⟨?_, ih hrest hothers, fun f hf g hg s hs hs' => ?_⟩
    · cases found with
      | none => exact .nil
      | some f => exact List.pairwise_singleton ..
    · have hf' := (ofParameter_spec (Option.mem_toList.1 hf ▸ hfound)).1
      obtain ⟨q, hq, hof⟩ := ofParameters_spec hothers g hg
      have hg' := (ofParameter_spec hof).1
      exact hfirst q hq ⟨(hf'.get_name hs).trans (hg'.get_name hs').symm,
        hf'.query.trans hg'.query.symm⟩

/-- Sorted filters have their names in order, and strictly so exactly if they are named apart. -/
theorem precedes_iff_apart {filters sorted : List Filter}
    (hsorted : sortOnKey (·.name) filters = .ok sorted)
    (htexts : ∀ f ∈ sorted, f.name.isText = true) :
    (sorted.map (·.name)).Pairwise (fun a b => ¬ b.Precedes a) ∧
      ((sorted.map (·.name)).Pairwise Scalar.Precedes ↔ filters.Pairwise Apart) := by
  have hperm := sortOnKey_perm hsorted
  have htexts' : ∀ f ∈ filters, f.name.isText = true := fun f hf => htexts f (hperm.mem_iff.2 hf)
  unfold sortOnKey at hsorted
  split at hsorted
  · cases hsorted
    refine ⟨?_, fun h => ?_, fun h => precedes_sortedBy htexts' ?_⟩
    · rw [List.pairwise_map]
      refine (sortedBy_pairwise (ranks_of_textKey fun f : Filter => f.name) htexts').imp ?_
      rintro f g hbelow ⟨s, t, hs, ht, hst⟩
      simp only [hs, ht] at hbelow
      exact of_decide_eq_false hbelow hst
    · refine (hperm.pairwise_iff Apart.symm).1 ((List.pairwise_map.1 h).imp ?_)
      rintro f g hfg s hs hs'
      rw [hs, hs'] at hfg
      exact hfg.asymm hfg
    · refine List.pairwise_filterMap.2 (h.imp ?_)
      rintro f g hfg s hs t ht rfl
      exact hfg s (Scalar.eq_text_of_text? hs) (Scalar.eq_text_of_text? ht)
  · cases hsorted

/-- Filters of two levels, each named apart, are named apart if no name is declared on both. -/
theorem apart_append_iff {shared own : List Members} {first second : List Filter}
    (hshared : Unrepeated shared) (hown : Unrepeated own)
    (hfirst : ofParameters { document := d } id shared = .ok first)
    (hsecond : ofParameters { document := d } id own = .ok second)
    (htexts : ∀ f ∈ first, f.name.isText = true) :
    (first ++ second).Pairwise Apart ↔
      ∀ p ∈ shared, ∀ q ∈ own, ∀ f g, Declares { document := d } p f →
        Declares { document := d } q g → f.name ≠ g.name := by
  rw [List.pairwise_append, and_iff_right (apart_of_unrepeated hshared hfirst),
    and_iff_right (apart_of_unrepeated hown hsecond)]
  constructor
  · intro hapart p hp q hq f g hf hg heq
    obtain ⟨description, hf'⟩ := exists_of_declares hfirst p hp f hf
    obtain ⟨description', hg'⟩ := exists_of_declares hsecond q hq g hg
    obtain ⟨s, hs⟩ := Scalar.isText_iff.1 (htexts _ hf')
    exact hapart _ hf' _ hg' s hs (heq.symm.trans hs)
  · intro hne f hf g hg s hs hs'
    obtain ⟨p, hp, hof⟩ := ofParameters_spec hfirst f hf
    obtain ⟨q, hq, hof'⟩ := ofParameters_spec hsecond g hg
    exact hne p hp q hq f g (ofParameter_spec hof).1 (ofParameter_spec hof').1
      (hs.trans hs'.symm)

/--
Of an operation neither of whose levels repeats a parameter, what is declared on the levels is what
its filters are. Their names are in order, and strictly increase exactly if no name is declared to
be that of a filter on both levels.
-/
theorem ascending_iff {resource : String} {shared own : List Members} {filters : List Filter}
    (hid : id.given = true) (hlevels : d.Levels id shared own) (hshared : Unrepeated shared)
    (hown : Unrepeated own) (h : ofOperation d id resource = .ok filters)
    (hnames : ∀ f ∈ filters, f.name.isText = true) :
    (∀ f ∈ filters, ∃ param ∈ shared ++ own, Declares { document := d } param f) ∧
    (∀ param ∈ shared ++ own, ∀ f, Declares { document := d } param f →
      ∃ description, { f with description } ∈ filters) ∧
    (filters.map (·.name)).Pairwise (fun a b => ¬ b.Precedes a) ∧
    ((filters.map (·.name)).Pairwise Scalar.Precedes ↔
      ∀ p ∈ shared, ∀ q ∈ own, ∀ f g, Declares { document := d } p f →
        Declares { document := d } q g → f.name ≠ g.name) := by
  have hparams := hlevels.parameters
  obtain ⟨-, hnone | hnone⟩ | ⟨params, read, sorted, hparams', hread, hsorted, rfl⟩ :=
    ofOperation_cases h
  · cases hid.symm.trans hnone
  · cases (Document.has_of_parameters hparams).symm.trans hnone
  cases hparams.symm.trans hparams'
  have hperm := sortOnKey_perm hsorted
  have htexts : ∀ f ∈ sorted, f.name.isText = true := fun f hf =>
    described_name resource f ▸ hnames _ (List.mem_map_of_mem hf)
  have hmap : (sorted.map (described resource)).map (·.name) = sorted.map (·.name) := by
    rw [List.map_map]
    exact List.map_congr_left fun f _ => described_name resource f
  obtain ⟨horder, hstrict⟩ := precedes_iff_apart hsorted htexts
  refine ⟨fun g hg => ?declared, fun param hparam f hf => ?present, hmap ▸ horder,
    hmap ▸ hstrict.trans ?strict⟩
  case declared =>
    obtain ⟨f, hf, rfl⟩ := List.mem_map.1 hg
    obtain ⟨param, hparam, hof⟩ := ofParameters_spec hread f (hperm.mem_iff.1 hf)
    exact ⟨param, hparam, (ofParameter_spec hof).1.described resource⟩
  case present =>
    obtain ⟨description, hmem⟩ := exists_of_declares hread param hparam f hf
    obtain ⟨description', heq⟩ := described_eq resource { f with description }
    exact ⟨description', List.mem_map.2 ⟨_, hperm.mem_iff.2 hmem, heq⟩⟩
  case strict =>
    obtain ⟨first, second, hfirst, hsecond, rfl⟩ := ofParameters_append hread
    exact apart_append_iff hshared hown hfirst hsecond fun f hf =>
      htexts f (hperm.mem_iff.2 (List.mem_append_left _ hf))

/-! ## A list of machines

It is filtered by their state, which the path declares as a text. The operation has parameters of
its own, among them one for paging.
-/

namespace Sample

def query (name type : String) : Value :=
  .record [("in", .text "query"), ("name", .text name), ("schema", .record [("type", .text type)])]

/-- A document with one operation, which lists machines. -/
def listing (own : List Value) : Document where
  root := []
  operations := [⟨.text "vm_list", .text "/vms/", "GET", [(.text "parameters", .list own)],
    [query "state" "string"]⟩]

def apartListing : Document := listing [query "name" "string", query "page" "integer"]

def twiceListing : Document := listing [query "state" "integer"]

/-- An operation that declares the state once more, as a number, is filtered by both. -/
theorem state_twice :
    ∃ shared own filters, twiceListing.Levels (.text "vm_list") shared own ∧
      Unrepeated shared ∧ Unrepeated own ∧
      ofOperation twiceListing (.text "vm_list") "" = .ok filters ∧
      filters.map (fun f => (f.name, f.type)) =
        [(.text "state", "String"), (.text "state", "Int64")] ∧
      ¬ (filters.map (·.name)).Pairwise Scalar.Precedes := by
  refine ⟨_, _, _, ⟨_, _, rfl, rfl, rfl, rfl⟩, List.pairwise_singleton ..,
    List.pairwise_singleton .., rfl, by decide, by decide⟩

end Sample

theorem ascending_iff_sample :
    ∃ shared own filters, (Value.text "vm_list").given = true ∧
      Sample.apartListing.Levels (.text "vm_list") shared own ∧
      Unrepeated shared ∧ Unrepeated own ∧
      ofOperation Sample.apartListing (.text "vm_list") "vm" = .ok filters ∧
      (∀ f ∈ filters, f.name.isText = true) ∧
      filters.map (·.name) = [.text "name", .text "state"] ∧
      ∀ p ∈ shared, ∀ q ∈ own, ∀ f g, Declares { document := Sample.apartListing } p f →
        Declares { document := Sample.apartListing } q g → f.name ≠ g.name := by
  have hlevels : Sample.apartListing.Levels (.text "vm_list") _ _ := ⟨_, _, rfl, rfl, rfl, rfl⟩
  have hown : ∀ {p q : Members}, p.get "name" = .text "name" → q.get "name" = .text "page" →
      Unrepeated [p, q] := by
    intro p q hp hq
    refine List.pairwise_pair.2 fun h => ?_
    rw [hp, hq] at h
    exact absurd h.1 (by simp)
  have hfilters : ofOperation Sample.apartListing (.text "vm_list") "vm" = .ok _ := rfl
  refine ⟨_, _, _, by decide, hlevels, List.pairwise_singleton .., hown rfl rfl, hfilters,
    by decide, by decide, ?_⟩
  exact (ascending_iff (by decide) hlevels (List.pairwise_singleton ..) (hown rfl rfl) hfilters
    (by decide)).2.2.2.1 (by decide)

end Filter

end ApiModels
