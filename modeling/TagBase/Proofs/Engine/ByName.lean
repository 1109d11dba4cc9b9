import TagBase.Proofs.Engine.Conjunction
import TagBase.Proofs.Store.Content

/-!
Answers by name. What a store answers can be said by its content alone, so the numbers that its tags
and values happen to have cannot be told from any answer.
-/

namespace TagBase

namespace Content

/-- What a query asks of the facts of a file, said by names. -/
def Holds (content : Content) (file : FileId) : Query → Prop
  | .everything => True
  | .tagged name =>
      name ∈ content.tags ∧ ∃ fact, (file, some fact) ∈ content.facts ∧ content.ImpliesTag fact name
  | .anyValue name =>
      name ∈ content.tags ∧ ∃ fact, (file, some fact) ∈ content.facts ∧
        (fact.tag = name ∨ ∃ source implied, (some source, some implied) ∈ content.rules ∧
          source.tag = fact.tag ∧ content.ImpliesTag implied name)
  | .valued name op literal =>
      name ∈ content.tags ∧ ∃ fact, (file, some fact) ∈ content.facts ∧
        if op = .ne then
          content.ImpliesTag fact name ∧ ¬ content.ImpliesValue fact name .eq literal
        else content.ImpliesValue fact name op literal
  | .both left right => content.Holds file left ∧ content.Holds file right

def Satisfies (content : Content) (file : FileId) (query : Query) : Prop :=
  (∃ fact, (file, some fact) ∈ content.facts) ∧ content.Holds file query

/-- A listing for a query shows the names of what the files that satisfy it carry and, where that is
asked for, imply. -/
def Lists (content : Content) (settings : Settings) (query : Query) (names : NamedPair) : Prop :=
  ∃ file fact, (file, some fact) ∈ content.facts ∧ content.Satisfies file query ∧
    (names = fact ∨ settings.listImplied = true ∧ content.Implies fact names)

end Content

namespace Store

variable {store : Store}

section Sound

variable (h : store.Sound)

include h

theorem Sound.exists_names_fact {fact : Fact} (hfact : fact ∈ store.facts) :
    ∃ names, store.catalog.namesOf? fact.pair = some names ∧
      (fact.file, some names) ∈ store.content.facts := by
  obtain ⟨names, hnames⟩ := Catalog.exists_namesOf? (h.knows_fact fact hfact)
  exact ⟨names, hnames, mem_facts_content_iff.mpr ⟨fact, hfact, rfl, hnames⟩⟩

theorem Sound.exists_tag_fact_iff {name : String} {file : FileId} {motive : Tag → Fact → Prop}
    {motive' : NamedPair → Prop}
    (hmotive : ∀ tag, store.catalog.tags.get? tag.id = some tag → tag.name = name →
      ∀ fact names, store.catalog.namesOf? fact.pair = some names →
        (motive tag fact ↔ motive' names)) :
    (∃ tag, store.catalog.tags.find? name = some tag ∧
        ∃ fact ∈ store.facts.toList.filter (fun fact => fact.file = file), motive tag fact) ↔
      name ∈ store.content.tags ∧
        ∃ names, (file, some names) ∈ store.content.facts ∧ motive' names := by
  rw [mem_tags_content_iff h]
  constructor
  · rintro ⟨tag, htag, fact, hloaded, hholds⟩
    obtain ⟨hfact, hfile⟩ := List.mem_filter.mp hloaded
    obtain rfl : fact.file = file := of_decide_eq_true hfile
    obtain ⟨names, hnames, hmem⟩ := h.exists_names_fact hfact
    have hname := (h.tags.find?_eq_some_iff.mp htag).2
    have hiff := hmotive tag (Registry.get?_of_find? htag) hname fact names hnames
    exact ⟨⟨tag, htag⟩, names, hmem, hiff.mp hholds⟩
  · rintro ⟨⟨tag, htag⟩, names, hmem, hholds⟩
    obtain ⟨fact, hfact, rfl, hnames⟩ := mem_facts_content_iff.mp hmem
    have hname := (h.tags.find?_eq_some_iff.mp htag).2
    have hiff := hmotive tag (Registry.get?_of_find? htag) hname fact names hnames
    exact ⟨tag, htag, fact, List.mem_filter.mpr ⟨hfact, by simp⟩, hiff.mpr hholds⟩

theorem Sound.exists_pair_closure_tag_iff {tag : Tag}
    (htag : store.catalog.tags.get? tag.id = some tag) {pair : Pair} {names : NamedPair}
    (hnames : store.catalog.namesOf? pair = some names) :
    (∃ other : Pair, other.tag = pair.tag ∧
        ∃ reached ∈ store.ruleGraph.closure other, reached.tag = tag.id) ↔
      names.tag = tag.name ∨ ∃ source implied, (some source, some implied) ∈ store.content.rules ∧
        source.tag = names.tag ∧ store.content.ImpliesTag implied tag.name := by
  have hany : store.catalog.namesOf? (.any tag.id) = some ⟨tag.name, none⟩ :=
    Catalog.namesOf?_any_iff.mpr ⟨tag.name, htag, rfl⟩
  rw [ruleGraph, RuleGraph.exists_pair_closure_tag_iff]
  refine or_congr (Catalog.tag_eq_iff_of_namesOf? h.tags hnames hany) ?_
  constructor
  · rintro ⟨rule, hrule, heq, hreached⟩
    obtain ⟨hsource, himplied⟩ := h.knows_rule rule hrule
    obtain ⟨source, hsource⟩ := Catalog.exists_namesOf? hsource
    obtain ⟨implied, himplied⟩ := Catalog.exists_namesOf? himplied
    have hmem := mem_rules_content_iff.mpr ⟨rule, hrule, hsource, himplied⟩
    exact ⟨source, implied, hmem, (Catalog.tag_eq_iff_of_namesOf? h.tags hsource hnames).mp heq,
      (h.exists_mem_closure_tag_iff himplied htag).mp hreached⟩
  · rintro ⟨source, implied, hmem, heq, himplies⟩
    obtain ⟨rule, hrule, hsource, himplied⟩ := mem_rules_content_iff.mp hmem
    exact ⟨rule, hrule, (Catalog.tag_eq_iff_of_namesOf? h.tags hsource hnames).mpr heq,
      (h.exists_mem_closure_tag_iff himplied htag).mpr himplies⟩

theorem Sound.holds_iff {file : FileId} {query : Query} :
    query.Holds store.catalog store.ruleGraph
        (store.facts.toList.filter fun fact => fact.file = file) ↔
      store.content.Holds file query := by
  induction query with
  | everything => exact Iff.rfl
  | tagged name =>
      apply h.exists_tag_fact_iff
      rintro tag htag rfl fact names hnames
      exact h.exists_mem_closure_tag_iff hnames htag
  | anyValue name =>
      apply h.exists_tag_fact_iff
      rintro tag htag rfl fact names hnames
      rw [← fact.pair_tag]
      exact h.exists_pair_closure_tag_iff htag hnames
  | valued name op literal =>
      apply h.exists_tag_fact_iff
      rintro tag htag rfl fact names hnames
      split
      · exact and_congr (h.exists_mem_closure_tag_iff hnames htag)
          (not_congr (h.exists_mem_closure_value_iff hnames htag))
      · exact h.exists_mem_closure_value_iff hnames htag
  | both left right ihleft ihright => exact and_congr ihleft ihright

theorem Sound.satisfies_iff {file : FileId} {query : Query} :
    store.Satisfies file query ↔ store.content.Satisfies file query := by
  rw [Satisfies, Content.Satisfies, h.holds_iff]
  refine and_congr_left fun _ => ⟨?_, ?_⟩
  · rintro ⟨fact, hfact, rfl⟩
    obtain ⟨names, -, hmem⟩ := h.exists_names_fact hfact
    exact ⟨names, hmem⟩
  · rintro ⟨names, hmem⟩
    obtain ⟨fact, hfact, hfile, -⟩ := mem_facts_content_iff.mp hmem
    exact ⟨fact, hfact, hfile⟩

theorem Sound.exists_mem_listedPairs_iff {settings : Settings} {query : Query}
    {compiled : CompiledQuery} (hcompile : store.compile query = .ok compiled) {names : NamedPair} :
    (∃ pair ∈ store.listedPairs List.filter settings compiled,
        store.catalog.namesOf? pair = some names) ↔
      store.content.Lists settings query names := by
  simp only [mem_listedPairs_iff hcompile, mem_matchingFiles_iff hcompile, h.satisfies_iff]
  constructor
  · rintro ⟨pair, ⟨fact, hfact, hfile, hcarried⟩, hnames⟩
    obtain ⟨named, hnamed, hmem⟩ := h.exists_names_fact hfact
    refine ⟨fact.file, named, hmem, hfile, ?_⟩
    rcases hcarried with rfl | ⟨hsettings, hclosure⟩
    · exact .inl (Option.some.inj (hnames.symm.trans hnamed))
    · obtain ⟨names', hnames', himplies⟩ := h.implies_of_mem_closure hnamed hclosure
      obtain rfl := Option.some.inj (hnames.symm.trans hnames')
      exact .inr ⟨hsettings, himplies⟩
  · rintro ⟨file, named, hmem, hfile, hcarried⟩
    obtain ⟨fact, hfact, rfl, hnamed⟩ := mem_facts_content_iff.mp hmem
    rcases hcarried with rfl | ⟨hsettings, himplies⟩
    · exact ⟨fact.pair, ⟨fact, hfact, hfile, .inl rfl⟩, hnamed⟩
    · obtain ⟨pair, hpair, hnames⟩ := h.exists_mem_closure_of_implies hnamed himplies
      exact ⟨pair, ⟨fact, hfact, hfile, .inr ⟨hsettings, hpair⟩⟩, hnames⟩

/-- What a store answers, said by its content: the files that satisfy the query, and the names that
it lists in their order. -/
theorem Sound.exists_answers {query : Query} {compiled : CompiledQuery}
    (hcompile : store.compile query = .ok compiled) (settings : Settings) :
    ∃ files listed, store.ask settings query .files = .ok (.files files) ∧
      store.ask settings query .pairs = .ok (.pairs listed) ∧
      (∀ file, file ∈ files ↔ store.content.Satisfies file query) ∧
      (listed.map ListedPair.names).Pairwise NamedPair.Before ∧
      ∀ names, names ∈ listed.map ListedPair.names ↔
        store.content.Lists settings query names := by
  obtain ⟨listed, hlisting, hpairs, hlisted⟩ := h.toGrounded.exists_ask_pairs hcompile settings
  refine ⟨_, listed, ask_files hcompile settings, hpairs, ?_, ?_, ?_⟩
  · intro file
    rw [mem_matchingFiles_iff hcompile, h.satisfies_iff]
  · rw [List.pairwise_map]
    simp only [ListedPair.before_names_iff]
    exact PairSet.pairwise_before_of_listing h.tags h.values hlisting
  · intro names
    rw [← h.exists_mem_listedPairs_iff hcompile, List.mem_map]
    simp only [hlisted, Catalog.namesOf?_eq_some_iff]
    constructor
    · rintro ⟨entry, ⟨pair, hpair, hentry⟩, hnames⟩
      exact ⟨pair, hpair, entry, hentry, hnames⟩
    · rintro ⟨pair, hpair, entry, hentry, hnames⟩
      exact ⟨entry, ⟨pair, hpair, hentry⟩, hnames⟩

end Sound

theorem find?_eq_none_iff_content (h : store.Sound) {name : String} :
    store.catalog.tags.find? name = none ↔ name ∉ store.content.tags := by
  rw [mem_tags_content_iff h, not_exists, Option.eq_none_iff_forall_ne_some]

theorem valuesMatching_eq_nil_iff_content {op : Operator} {literal : String} :
    store.catalog.valuesMatching op literal = [] ↔
      ∀ name ∈ store.content.values, ¬ op.matchesNames name literal = true := by
  simp [Catalog.valuesMatching, mem_values_content_iff]

theorem fault?_eq_of_content {other : Store} (hstore : store.Sound) (hother : other.Sound)
    (h : store.content = other.content) :
    Query.fault? store.catalog = Query.fault? other.catalog := by
  apply Query.fault?_congr
  · intro name
    rw [find?_eq_none_iff_content hstore, find?_eq_none_iff_content hother, h]
  · intro literal
    rw [valuesMatching_eq_nil_iff_content, valuesMatching_eq_nil_iff_content, h]

/-- Where two stores have the same content, a query gets the same error in both, or the same files
and the same names in the same order. -/
theorem answers_eq_of_content {operations others : List Operation}
    (hfew : Operation.FewNames operations) (hfew' : Operation.FewNames others)
    (h : (empty.after operations).content = (empty.after others).content) (settings : Settings)
    (query : Query) :
    let store := empty.after operations
    let other := empty.after others
    (∃ error, store.compile query = .error error ∧ other.compile query = .error error) ∨
      (store.compile query).isOk = true ∧ (other.compile query).isOk = true ∧
        ∃ files listed listed',
          store.ask settings query .files = .ok (.files files) ∧
            other.ask settings query .files = .ok (.files files) ∧
            store.ask settings query .pairs = .ok (.pairs listed) ∧
            other.ask settings query .pairs = .ok (.pairs listed') ∧
            listed.map ListedPair.names = listed'.map ListedPair.names := by
  intro store other
  have hstore : store.Sound := sound_after hfew
  have hother : other.Sound := sound_after hfew'
  have hfaults := fault?_eq_of_content hstore hother h
  cases hcompile : store.compile query with
  | error error =>
      refine .inl ⟨error, rfl, ?_⟩
      rw [compile_eq_error_iff, ← hfaults]
      exact compile_eq_error_iff.mp hcompile
  | ok compiled =>
      have hterms := exists_compile_iff.mp ⟨compiled, hcompile⟩
      rw [hfaults] at hterms
      obtain ⟨compiled', hcompile'⟩ := exists_compile_iff.mpr hterms
      obtain ⟨files, listed, hfiles, hpairs, hmem, hordered, hnames⟩ :=
        hstore.exists_answers hcompile settings
      obtain ⟨files', listed', hfiles', hpairs', hmem', hordered', hnames'⟩ :=
        hother.exists_answers hcompile' settings
      have hok : (other.compile query).isOk = true := by
        rw [hcompile']
        rfl
      refine .inr ⟨rfl, hok, files, listed, listed', hfiles, ?_, hpairs, hpairs', ?_⟩
      · have hsame : files = files' := by
          apply OrderedSet.ext_mem
          intro file
          rw [hmem, hmem', h]
        rw [hfiles', hsame]
      · apply hordered.eq_of_mem_iff hordered'
        intro names
        rw [hnames, hnames', h]

theorem answers_eq_of_content_unix :
    let operations : List Operation := [.createTag "os", .createTag "unix", .createValue "linux",
      .createValue "mac", .addRule ⟨.exact ⟨1⟩ ⟨1⟩, .any ⟨2⟩⟩, .addRule ⟨.any ⟨2⟩, .any ⟨1⟩⟩,
      .insertFact ⟨⟨1⟩, ⟨1⟩, some ⟨1⟩⟩, .insertFact ⟨⟨2⟩, ⟨1⟩, some ⟨2⟩⟩,
      .insertFact ⟨⟨3⟩, ⟨2⟩, none⟩]
    let others : List Operation := [.createValue "mac", .createTag "unix", .createValue "linux",
      .createTag "os", .insertFact ⟨⟨3⟩, ⟨1⟩, none⟩, .insertFact ⟨⟨2⟩, ⟨2⟩, some ⟨1⟩⟩,
      .insertFact ⟨⟨1⟩, ⟨2⟩, some ⟨2⟩⟩, .addRule ⟨.any ⟨1⟩, .any ⟨2⟩⟩,
      .addRule ⟨.exact ⟨2⟩ ⟨2⟩, .any ⟨1⟩⟩]
    let store := empty.after operations
    let other := empty.after others
    let settings : Settings := ⟨true, true, 0⟩
    let query : Query := .both (.tagged "unix") (.valued "os" .ne "mac")
    Operation.FewNames operations ∧ Operation.FewNames others ∧ store.content = other.content ∧
      store.catalog ≠ other.catalog ∧
      store.ask settings query .files = .ok (.files (.ofList [⟨1⟩, ⟨3⟩])) ∧
      other.ask settings query .files = .ok (.files (.ofList [⟨1⟩, ⟨3⟩])) ∧
      ∃ listed listed', store.ask settings query .pairs = .ok (.pairs listed) ∧
        other.ask settings query .pairs = .ok (.pairs listed') ∧
        listed.map ListedPair.names = listed'.map ListedPair.names := by
  intro operations others store other settings query
  have hfew : Operation.FewNames operations := by
    intro kind
    cases kind <;> decide +kernel
  have hfew' : Operation.FewNames others := by
    intro kind
    cases kind <;> decide +kernel
  have hcontent : store.content = other.content := by
    apply Content.ext <;> decide +kernel
  have hasked : store.ask settings query .files = .ok (.files (.ofList [⟨1⟩, ⟨3⟩])) := by
    decide +kernel
  refine ⟨hfew, hfew', hcontent, by decide +kernel, hasked, ?_⟩
  rcases answers_eq_of_content hfew hfew' hcontent settings query with
    ⟨error, hcompile, -⟩ | ⟨-, -, files, listed, listed', hfiles, hfiles', hpairs, hpairs', hnames⟩
  · have hfailed : store.ask settings query .files = .error error := by
      rw [ask, hcompile]
      rfl
    rw [hasked] at hfailed
    contradiction
  · cases hasked.symm.trans hfiles
    exact ⟨hfiles', listed, listed', hpairs, hpairs', hnames⟩

end Store

end TagBase
