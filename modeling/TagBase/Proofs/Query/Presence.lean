import TagBase.Proofs.Query.Meaning
import TagBase.Proofs.Store.History

namespace TagBase

theorem Fact.ImpliesValue.implies {catalog : Catalog} {graph : RuleGraph} {fact : Fact}
    {tag : TagId} {op : Operator} {literal : String}
    (h : fact.ImpliesValue catalog graph tag op literal) : fact.Implies graph tag := by
  obtain ⟨value, -, -, hclosure⟩ := h
  exact ⟨_, hclosure, rfl⟩

namespace FactTest

def Narrows (test other : FactTest) : Prop :=
  ∀ fact, test.accepts fact = true → other.accepts fact = true

/-- The facts that pass a test are those that pass exactly one of two others, which no fact passes
both. -/
structure SplitsInto (whole left right : FactTest) : Prop where
  accepts_iff : ∀ fact, whole.accepts fact = true ↔ left.accepts fact ≠ right.accepts fact
  not_both : ∀ fact, ¬ (left.accepts fact = true ∧ right.accepts fact = true)

theorem splitsInto_of_narrows {family excluded : PairSet}
    (h : (within excluded).Narrows (within family)) :
    (within family).SplitsInto (within excluded) (outside family excluded) := by
  constructor
  · intro fact
    have hfact := h fact
    simp only [accepts] at hfact ⊢
    cases hexcluded : excluded.covers fact with
    | false => cases family.covers fact <;> simp
    | true => simp [hfact hexcluded]
  · rintro fact ⟨hexcluded, hout⟩
    rw [accepts] at hexcluded
    simp [accepts, hexcluded] at hout

end FactTest

namespace Query

variable {rules : List Rule} {catalog : Catalog}

theorem narrows_tagClosure {tag : Tag} {op : Operator} {literal : String} {pairs : PairSet}
    (h : valueClosure catalog (.ofRules rules) tag op literal = .ok pairs) :
    (FactTest.within pairs).Narrows (.within (tagClosure (.ofRules rules) tag)) := by
  intro fact hfact
  have hvalue := (covers_valueClosure_iff h).mp hfact
  exact covers_tagClosure_iff.mpr hvalue.implies

theorem narrows_tags_tagClosure (tag : Tag) :
    (FactTest.within (tagClosure (.ofRules rules) tag)).Narrows
      (.taggedIn (tagClosure (.ofRules rules) tag).tags) := by
  intro fact hfact
  have himplies := covers_tagClosure_iff.mp hfact
  exact decide_eq_true (mem_tags_tagClosure_iff.mpr ⟨fact.pair, fact.pair_tag, himplies⟩)

theorem exists_valueClosure {graph : RuleGraph} {tag : Tag} {op : Operator} (hop : op ≠ .eq)
    (literal : String) : ∃ pairs, valueClosure catalog graph tag op literal = .ok pairs := by
  rw [valueClosure_eq, if_neg fun h => hop h.1]
  exact ⟨_, rfl⟩

/-- Of the facts that imply a known tag, each passes either equality or inequality with a literal
that is known; an ordered comparison lets no others pass, and the question for any value lets all
of them pass. -/
theorem exists_tests_of_known_tag (store : Store) {name : String} {tag : Tag}
    (htag : store.catalog.tags.find? name = some tag) :
    ∃ present any : FactTest,
      compile store.catalog store.ruleGraph (.tagged name) = .ok (.someFact present) ∧
      compile store.catalog store.ruleGraph (.anyValue name) = .ok (.someFact any) ∧
      (∀ literal matcher,
        compile store.catalog store.ruleGraph (.valued name .eq literal) = .ok matcher →
          ∃ equal unequal : FactTest, matcher = .someFact equal ∧
            compile store.catalog store.ruleGraph (.valued name .ne literal) =
              .ok (.someFact unequal) ∧
            present.SplitsInto equal unequal) ∧
      (∀ op literal, op ≠ .eq → op ≠ .ne →
        ∃ ordered : FactTest,
          compile store.catalog store.ruleGraph (.valued name op literal) =
            .ok (.someFact ordered) ∧
          ordered.Narrows present) ∧
      present.Narrows any := by
  refine ⟨_, _, compile_tagged htag, compile_anyValue htag, ?_, ?_, narrows_tags_tagClosure tag⟩
  · intro literal matcher hmatcher
    rw [compile_valued htag (by decide)] at hmatcher
    have hunequal : compile store.catalog store.ruleGraph (.valued name .ne literal) = _ :=
      compile_valued_ne htag literal
    cases hequal : valueClosure store.catalog store.ruleGraph tag .eq literal with
    | error error =>
        rw [hequal] at hmatcher
        contradiction
    | ok equal =>
        rw [hequal] at hmatcher hunequal
        cases hmatcher
        have hnarrows := narrows_tagClosure hequal
        exact ⟨_, _, rfl, hunequal, FactTest.splitsInto_of_narrows hnarrows⟩
  · intro op literal heq hne
    obtain ⟨ordered, hordered⟩ :
        ∃ pairs, valueClosure store.catalog store.ruleGraph tag op literal = .ok pairs :=
      exists_valueClosure heq literal
    refine ⟨.within ordered, ?_, narrows_tagClosure hordered⟩
    rw [compile_valued htag hne, hordered]
    rfl

theorem splitsInto_unix :
    let store := Store.empty.after [.createTag "os", .createTag "unix", .createValue "linux",
      .createValue "bsd", .addRule ⟨.exact ⟨2⟩ ⟨2⟩, .exact ⟨2⟩ ⟨1⟩⟩,
      .addRule ⟨.exact ⟨1⟩ ⟨1⟩, .any ⟨2⟩⟩, .addRule ⟨.any ⟨2⟩, .any ⟨1⟩⟩]
    store.catalog.tags.find? "unix" = some ⟨⟨2⟩, "unix"⟩ ∧
      ∃ present equal unequal : FactTest,
        compile store.catalog store.ruleGraph (.tagged "unix") = .ok (.someFact present) ∧
        compile store.catalog store.ruleGraph (.valued "unix" .eq "linux") =
          .ok (.someFact equal) ∧
        compile store.catalog store.ruleGraph (.valued "unix" .ne "linux") =
          .ok (.someFact unequal) ∧
        present.SplitsInto equal unequal := by
  intro store
  have htag : store.catalog.tags.find? "unix" = some ⟨⟨2⟩, "unix"⟩ := by decide +kernel
  have hequal :
      (compile store.catalog store.ruleGraph (.valued "unix" .eq "linux")).isOk = true := by
    decide +kernel
  obtain ⟨matcher, hmatcher⟩ := exists_eq_ok_of_isOk hequal
  obtain ⟨present, any, hpresent, -, hsplit, -, -⟩ := exists_tests_of_known_tag store htag
  obtain ⟨equal, unequal, rfl, hunequal, hsplits⟩ := hsplit "linux" matcher hmatcher
  exact ⟨htag, present, equal, unequal, hpresent, hmatcher, hunequal, hsplits⟩

end Query

end TagBase
