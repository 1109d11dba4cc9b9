import Mathlib.Data.Finset.Dedup
import TagBase.Proofs.Listing.ByName
import TagBase.Proofs.Store.Names

namespace TagBase

/-- What a store says in names. A pair that the catalog does not know has none. -/
@[ext] structure Content where
  tags : Finset String
  values : Finset String
  facts : Finset (FileId × Option NamedPair)
  rules : Finset (Option NamedPair × Option NamedPair)

namespace Content

def StepsTo (content : Content) (names reached : NamedPair) : Prop :=
  ∃ source, (some source, some reached) ∈ content.rules ∧ names.FallsUnder source

/-- Whatever carries `names` carries `reached`, directly or by the rules. -/
def Implies (content : Content) : NamedPair → NamedPair → Prop :=
  Relation.ReflTransGen content.StepsTo

def ImpliesTag (content : Content) (names : NamedPair) (tag : String) : Prop :=
  ∃ reached, content.Implies names reached ∧ reached.tag = tag

def ImpliesValue (content : Content) (names : NamedPair) (tag : String) (op : Operator)
    (literal : String) : Prop :=
  ∃ value, op.matchesNames value literal = true ∧ content.Implies names ⟨tag, some value⟩

end Content

namespace Store

/-- What a store says when its numbers are replaced by names. -/
def content (store : Store) : Content where
  tags := (store.catalog.tags.records.map Named.name).toFinset
  values := (store.catalog.values.records.map Named.name).toFinset
  facts := (store.facts.toList.map fun fact =>
    (fact.file, store.catalog.namesOf? fact.pair)).toFinset
  rules := (store.rules.toList.map fun rule =>
    (store.catalog.namesOf? rule.source, store.catalog.namesOf? rule.implied)).toFinset

variable {store : Store}

theorem mem_facts_content_iff {file : FileId} {names : NamedPair} :
    (file, some names) ∈ store.content.facts ↔
      ∃ fact ∈ store.facts, fact.file = file ∧ store.catalog.namesOf? fact.pair = some names := by
  simp [content, OrderedSet.mem_toList]

theorem mem_rules_content_iff {source implied : NamedPair} :
    (some source, some implied) ∈ store.content.rules ↔
      ∃ rule ∈ store.rules, store.catalog.namesOf? rule.source = some source ∧
        store.catalog.namesOf? rule.implied = some implied := by
  simp [content, OrderedSet.mem_toList]

theorem mem_tags_content_iff (h : store.Sound) {name : String} :
    name ∈ store.content.tags ↔ ∃ tag, store.catalog.tags.find? name = some tag := by
  simp [content, h.tags.find?_eq_some_iff]

theorem mem_values_content_iff {name : String} :
    name ∈ store.content.values ↔ ∃ value ∈ store.catalog.values.records, value.name = name := by
  simp [content]

section Rules

variable (h : store.Sound) {pair : Pair} {names : NamedPair}
  (hnames : store.catalog.namesOf? pair = some names)

include h hnames

theorem Sound.stepsTo_content {reached : Pair}
    (hstep : RuleGraph.StepsTo store.rules.toList pair reached) :
    ∃ names', store.catalog.namesOf? reached = some names' ∧
      store.content.StepsTo names names' := by
  obtain ⟨rule, hrule, hunder, rfl⟩ := hstep
  obtain ⟨hsource, himplied⟩ := h.knows_rule rule hrule
  obtain ⟨source, hsource⟩ := Catalog.exists_namesOf? hsource
  obtain ⟨implied, himplied⟩ := Catalog.exists_namesOf? himplied
  refine ⟨implied, himplied, source, ?_, ?_⟩
  · exact mem_rules_content_iff.mpr ⟨rule, hrule, hsource, himplied⟩
  · exact (Catalog.fallsUnder_iff_of_namesOf? h.tags h.values hnames hsource).mp hunder

theorem Sound.exists_stepsTo {names' : NamedPair} (hstep : store.content.StepsTo names names') :
    ∃ reached, RuleGraph.StepsTo store.rules.toList pair reached ∧
      store.catalog.namesOf? reached = some names' := by
  obtain ⟨source, hmem, hunder⟩ := hstep
  obtain ⟨rule, hrule, hsource, himplied⟩ := mem_rules_content_iff.mp hmem
  refine ⟨rule.implied, ⟨rule, hrule, ?_, rfl⟩, himplied⟩
  exact (Catalog.fallsUnder_iff_of_namesOf? h.tags h.values hnames hsource).mpr hunder

theorem Sound.implies_of_mem_closure {reached : Pair}
    (hreached : reached ∈ store.ruleGraph.closure pair) :
    ∃ names', store.catalog.namesOf? reached = some names' ∧
      store.content.Implies names names' := by
  have hwalk := RuleGraph.mem_closure_iff.mp hreached
  clear hreached
  induction hwalk with
  | refl => exact ⟨names, hnames, .refl⟩
  | tail _ hstep ih =>
      obtain ⟨middle, hmiddle, himplies⟩ := ih
      obtain ⟨names', hnames', hlast⟩ := h.stepsTo_content hmiddle hstep
      exact ⟨names', hnames', himplies.tail hlast⟩

theorem Sound.exists_mem_closure_of_implies {names' : NamedPair}
    (himplies : store.content.Implies names names') :
    ∃ reached ∈ store.ruleGraph.closure pair, store.catalog.namesOf? reached = some names' := by
  induction himplies with
  | refl => exact ⟨pair, RuleGraph.mem_closure_self _ pair, hnames⟩
  | tail _ hstep ih =>
      obtain ⟨middle, hmiddle, hnames⟩ := ih
      obtain ⟨reached, hlast, hreached⟩ := h.exists_stepsTo hnames hstep
      have hwalk := (RuleGraph.mem_closure_iff.mp hmiddle).tail hlast
      exact ⟨reached, RuleGraph.mem_closure_iff.mpr hwalk, hreached⟩

theorem Sound.exists_mem_closure_tag_iff {tag : Tag}
    (htag : store.catalog.tags.get? tag.id = some tag) :
    (∃ reached ∈ store.ruleGraph.closure pair, reached.tag = tag.id) ↔
      store.content.ImpliesTag names tag.name := by
  constructor
  · rintro ⟨reached, hreached, heq⟩
    obtain ⟨names', hnames', himplies⟩ := h.implies_of_mem_closure hnames hreached
    have hget := Catalog.get?_tag_of_namesOf? hnames'
    rw [heq, htag] at hget
    exact ⟨names', himplies, (congrArg Named.name (Option.some.inj hget)).symm⟩
  · rintro ⟨names', himplies, heq⟩
    obtain ⟨reached, hreached, hnames'⟩ := h.exists_mem_closure_of_implies hnames himplies
    have hget := Catalog.get?_tag_of_namesOf? hnames'
    exact ⟨reached, hreached, h.tags.id_eq_of_name_eq hget htag heq⟩

theorem Sound.exists_mem_closure_value_iff {tag : Tag}
    (htag : store.catalog.tags.get? tag.id = some tag) {op : Operator} {literal : String} :
    (∃ value ∈ store.catalog.values.records, op.matchesNames value.name literal = true ∧
        Pair.exact tag.id value.id ∈ store.ruleGraph.closure pair) ↔
      store.content.ImpliesValue names tag.name op literal := by
  constructor
  · rintro ⟨value, hvalue, hmatches, hreached⟩
    obtain ⟨names', hnames', himplies⟩ := h.implies_of_mem_closure hnames hreached
    have hget := Registry.get?_eq_some_iff.mpr ⟨hvalue, rfl⟩
    have hexact : store.catalog.namesOf? (.exact tag.id value.id) =
        some ⟨tag.name, some value.name⟩ :=
      Catalog.namesOf?_exact_iff.mpr ⟨tag.name, value.name, htag, hget, rfl⟩
    obtain rfl := Option.some.inj (hexact.symm.trans hnames')
    exact ⟨value.name, hmatches, himplies⟩
  · rintro ⟨word, hmatches, himplies⟩
    obtain ⟨⟨number, selector⟩, hreached, hnames'⟩ :=
      h.exists_mem_closure_of_implies hnames himplies
    cases selector with
    | any =>
        obtain ⟨name, -, hnone⟩ := Catalog.namesOf?_any_iff.mp hnames'
        cases hnone
    | exact value =>
        obtain ⟨name, found, hget, hvalue, hword⟩ := Catalog.namesOf?_exact_iff.mp hnames'
        cases hword
        obtain rfl := h.tags.id_eq_of_name_eq hget htag rfl
        exact ⟨⟨value, word⟩, (Registry.get?_eq_some_iff.mp hvalue).1, hmatches, hreached⟩

end Rules

end Store

end TagBase
