import TagBase.Proofs.Rule.Closure
import TagBase.Query.Compile

namespace TagBase

/-- A fact implies a tag, with whatever value. -/
def Fact.Implies (graph : RuleGraph) (fact : Fact) (tag : TagId) : Prop :=
  ∃ pair ∈ graph.closure fact.pair, pair.tag = tag

/-- A fact implies a tag with a known value that stands to the literal as the operator asks. -/
def Fact.ImpliesValue (catalog : Catalog) (graph : RuleGraph) (fact : Fact) (tag : TagId)
    (op : Operator) (literal : String) : Prop :=
  ∃ value ∈ catalog.values.records,
    op.matchesNames value.name literal = true ∧ Pair.exact tag value.id ∈ graph.closure fact.pair

/-- What a query asks of the facts of a file. -/
def Query.Holds (catalog : Catalog) (graph : RuleGraph) (facts : List Fact) : Query → Prop
  | .everything => True
  | .tagged name =>
      ∃ tag, catalog.tags.find? name = some tag ∧ ∃ fact ∈ facts, fact.Implies graph tag.id
  | .anyValue name =>
      -- the value of the fact does not count: any pair of its tag may imply the tag
      ∃ tag, catalog.tags.find? name = some tag ∧
        ∃ fact ∈ facts, ∃ pair : Pair, pair.tag = fact.tag ∧
          ∃ reached ∈ graph.closure pair, reached.tag = tag.id
  | .valued name op literal =>
      ∃ tag, catalog.tags.find? name = some tag ∧
        ∃ fact ∈ facts,
          if op = .ne then
            fact.Implies graph tag.id ∧ ¬ fact.ImpliesValue catalog graph tag.id .eq literal
          else fact.ImpliesValue catalog graph tag.id op literal
  | .both left right => left.Holds catalog graph facts ∧ right.Holds catalog graph facts

namespace Query

variable {rules : List Rule} {catalog : Catalog}

theorem exists_mem_tagClosure_iff {tag : Tag} {pair : Pair} :
    (∃ above ∈ tagClosure (.ofRules rules) tag, pair.FallsUnder above) ↔
      ∃ reached ∈ (RuleGraph.ofRules rules).closure pair, reached.tag = tag.id := by
  rw [tagClosure, RuleGraph.exists_mem_implyingClosure_iff]
  simp only [List.mem_singleton, exists_eq_left, Pair.fallsUnder_any_iff]

theorem covers_tagClosure_iff {tag : Tag} {fact : Fact} :
    (tagClosure (.ofRules rules) tag).covers fact = true ↔
      fact.Implies (.ofRules rules) tag.id := by
  rw [PairSet.covers_iff, exists_mem_tagClosure_iff, Fact.Implies]

theorem mem_tags_tagClosure_iff {tag : Tag} {other : TagId} :
    other ∈ (tagClosure (.ofRules rules) tag).tags ↔
      ∃ pair : Pair, pair.tag = other ∧
        ∃ reached ∈ (RuleGraph.ofRules rules).closure pair, reached.tag = tag.id := by
  simp only [PairSet.tags, OrderedSet.mem_ofList, List.mem_map, OrderedSet.mem_toList,
    ← exists_mem_tagClosure_iff]
  constructor
  · rintro ⟨pair, hpair, htag⟩
    exact ⟨pair, htag, pair, hpair, .refl pair⟩
  · rintro ⟨pair, htag, above, habove, hunder⟩
    exact ⟨above, habove, hunder.1.symm.trans htag⟩

theorem valueClosure_eq (tag : Tag) (op : Operator) (literal : String) (graph : RuleGraph) :
    valueClosure catalog graph tag op literal =
      if op = .eq ∧ catalog.valuesMatching op literal = [] then .error (.unknownValue literal)
      else
        .ok (graph.implyingClosure
          ((catalog.valuesMatching op literal).map fun value => .exact tag.id value.id)) := by
  simp only [valueClosure, List.map_eq_nil_iff]

theorem covers_valueClosure_iff {tag : Tag} {op : Operator} {literal : String} {pairs : PairSet}
    (h : valueClosure catalog (.ofRules rules) tag op literal = .ok pairs) {fact : Fact} :
    pairs.covers fact = true ↔ fact.ImpliesValue catalog (.ofRules rules) tag.id op literal := by
  rw [valueClosure_eq] at h
  split at h
  · contradiction
  · obtain rfl := Except.ok.inj h
    rw [PairSet.covers_iff, RuleGraph.exists_mem_implyingClosure_iff]
    simp only [Catalog.valuesMatching, List.mem_map, List.mem_filter, Fact.ImpliesValue]
    constructor
    · rintro ⟨_, ⟨value, ⟨hvalue, hop⟩, rfl⟩, reached, hreached, hunder⟩
      exact ⟨value, hvalue, hop, Pair.fallsUnder_exact_iff.mp hunder ▸ hreached⟩
    · rintro ⟨value, hvalue, hop, hreached⟩
      exact ⟨_, ⟨value, ⟨hvalue, hop⟩, rfl⟩, _, hreached, .refl _⟩

theorem resolveTag_bind_eq_ok_iff {α : Type} {name : String} {next : Tag → Except Error α}
    {a : α} :
    (catalog.resolveTag name >>= next) = .ok a ↔
      ∃ tag, catalog.tags.find? name = some tag ∧ next tag = .ok a := by
  rw [Catalog.resolveTag]
  cases catalog.tags.find? name <;> simp [bind, Except.bind]

theorem compile_tagged {graph : RuleGraph} {name : String} {tag : Tag}
    (htag : catalog.tags.find? name = some tag) :
    compile catalog graph (.tagged name) = .ok (.someFact (.within (tagClosure graph tag))) :=
  resolveTag_bind_eq_ok_iff.mpr ⟨tag, htag, rfl⟩

theorem compile_valued {graph : RuleGraph} {name : String} {tag : Tag}
    (htag : catalog.tags.find? name = some tag) {op : Operator} (hop : op ≠ .ne)
    (literal : String) :
    compile catalog graph (.valued name op literal) =
      (valueClosure catalog graph tag op literal).map fun pairs => .someFact (.within pairs) := by
  rw [compile, Catalog.resolveTag, htag]
  change (if op = .ne then _ else _) = _
  rw [if_neg hop]
  cases valueClosure catalog graph tag op literal <;> rfl

theorem compile_anyValue {graph : RuleGraph} {name : String} {tag : Tag}
    (htag : catalog.tags.find? name = some tag) :
    compile catalog graph (.anyValue name) =
      .ok (.someFact (.taggedIn (tagClosure graph tag).tags)) :=
  resolveTag_bind_eq_ok_iff.mpr ⟨tag, htag, rfl⟩

theorem compile_valued_ne {graph : RuleGraph} {name : String} {tag : Tag}
    (htag : catalog.tags.find? name = some tag) (literal : String) :
    compile catalog graph (.valued name .ne literal) =
      (valueClosure catalog graph tag .eq literal).map fun excluded =>
        .someFact (.outside (tagClosure graph tag) excluded) := by
  rw [compile, Catalog.resolveTag, htag]
  change (valueClosure catalog graph tag .eq literal >>= _) = _
  cases valueClosure catalog graph tag .eq literal <;> rfl

theorem holds_someFact_iff {test : FactTest} {facts : List Fact} :
    (Matcher.someFact test).holds facts = true ↔ ∃ fact ∈ facts, test.accepts fact = true := by
  rw [Matcher.holds, List.any_eq_true]

theorem holds_iff_of_compile {query : Query} {matcher : Matcher}
    (h : query.compile catalog (.ofRules rules) = .ok matcher) (facts : List Fact) :
    matcher.holds facts = true ↔ query.Holds catalog (.ofRules rules) facts := by
  induction query generalizing matcher with
  | everything =>
      obtain rfl := Except.ok.inj h
      simp [Matcher.holds, Holds]
  | tagged name =>
      obtain ⟨tag, htag, hok⟩ := resolveTag_bind_eq_ok_iff.mp h
      obtain rfl := Except.ok.inj hok
      simp only [holds_someFact_iff, FactTest.accepts, covers_tagClosure_iff, Holds, htag,
        Option.some.injEq, exists_eq_left']
  | anyValue name =>
      obtain ⟨tag, htag, hok⟩ := resolveTag_bind_eq_ok_iff.mp h
      obtain rfl := Except.ok.inj hok
      simp only [holds_someFact_iff, FactTest.accepts, decide_eq_true_eq, mem_tags_tagClosure_iff,
        Holds, htag, Option.some.injEq, exists_eq_left']
  | valued name op literal =>
      obtain ⟨tag, htag, hok⟩ := resolveTag_bind_eq_ok_iff.mp h
      simp only [Holds, htag, Option.some.injEq, exists_eq_left']
      split at hok
      · rename_i hop
        obtain ⟨excluded, hexcluded, hok⟩ := bind_eq_ok_iff.mp hok
        obtain rfl := Except.ok.inj hok
        simp only [holds_someFact_iff, FactTest.accepts, hop, if_true, Bool.and_eq_true,
          Bool.not_eq_true', ← Bool.not_eq_true, covers_tagClosure_iff,
          covers_valueClosure_iff hexcluded]
      · rename_i hop
        obtain ⟨pairs, hpairs, hok⟩ := bind_eq_ok_iff.mp hok
        obtain rfl := Except.ok.inj hok
        simp only [holds_someFact_iff, FactTest.accepts, hop, if_false,
          covers_valueClosure_iff hpairs]
  | both left right ihLeft ihRight =>
      obtain ⟨leftMatcher, hleft, hok⟩ := bind_eq_ok_iff.mp h
      obtain ⟨rightMatcher, hright, hok⟩ := bind_eq_ok_iff.mp hok
      obtain rfl := Except.ok.inj hok
      rw [Matcher.holds, Bool.and_eq_true, ihLeft hleft, ihRight hright, Holds]

end Query

end TagBase
