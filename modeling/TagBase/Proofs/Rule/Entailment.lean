import TagBase.Proofs.Rule.Closure

namespace TagBase

theorem Pair.FallsUnder.trans {pair middle other : Pair} (h : pair.FallsUnder middle)
    (hmiddle : middle.FallsUnder other) : pair.FallsUnder other := by
  refine ⟨h.1.trans hmiddle.1, ?_⟩
  rcases hmiddle.2 with hany | hsame
  · exact .inl hany
  · rw [hsame]
    exact h.2

namespace RuleGraph

/-- Walking on from a pair by the rules one meets something that falls under the goal. -/
def Entails (rules : List Rule) (pair goal : Pair) : Prop :=
  ∃ reached, Relation.ReflTransGen (StepsTo rules) pair reached ∧ reached.FallsUnder goal

def FollowsFrom (rules others : List Rule) : Prop :=
  ∀ rule ∈ rules, Entails others rule.source rule.implied

variable {rules others : List Rule} {pair middle goal : Pair}

theorem StepsTo.of_fallsUnder {reached : Pair} (hstep : StepsTo rules middle reached)
    (h : pair.FallsUnder middle) : StepsTo rules pair reached := by
  obtain ⟨rule, hrule, hunder, himplied⟩ := hstep
  exact ⟨rule, hrule, h.trans hunder, himplied⟩

theorem entails_of_fallsUnder (h : pair.FallsUnder goal) : Entails rules pair goal :=
  ⟨pair, .refl, h⟩

theorem entails_of_walk {reached : Pair} (h : pair.FallsUnder middle)
    (hwalk : Relation.ReflTransGen (StepsTo rules) middle reached) :
    Entails rules pair reached := by
  cases hwalk using Relation.ReflTransGen.head_induction_on with
  | refl => exact entails_of_fallsUnder h
  | head hstep hrest =>
      exact ⟨reached, .head (hstep.of_fallsUnder h) hrest, .refl reached⟩

theorem Entails.trans (h : Entails rules pair middle) (hmiddle : Entails rules middle goal) :
    Entails rules pair goal := by
  obtain ⟨above, hwalk, habove⟩ := h
  obtain ⟨reached, hwalk', hreached⟩ := hmiddle
  obtain ⟨last, hlast, hunder⟩ := entails_of_walk habove hwalk'
  exact ⟨last, hwalk.trans hlast, hunder.trans hreached⟩

theorem entails_of_mem {rule : Rule} (hrule : rule ∈ rules) :
    Entails rules rule.source rule.implied :=
  ⟨rule.implied, .single ⟨rule, hrule, .refl rule.source, rfl⟩, .refl rule.implied⟩

theorem FollowsFrom.of_subset (h : ∀ rule ∈ rules, rule ∈ others) : FollowsFrom rules others :=
  fun rule hrule => entails_of_mem (h rule hrule)

theorem FollowsFrom.entails_of_walk {reached : Pair} (h : FollowsFrom rules others)
    (hwalk : Relation.ReflTransGen (StepsTo rules) pair reached) :
    Entails others pair reached := by
  -- a step by an entailed rule may end below the pair it stands for: only entailment is kept
  induction hwalk with
  | refl => exact entails_of_fallsUnder (.refl pair)
  | tail _ hstep ih =>
      obtain ⟨rule, hrule, hsource, rfl⟩ := hstep
      have hrule' : Entails others rule.source rule.implied := h rule hrule
      exact (ih.trans (entails_of_fallsUnder hsource)).trans hrule'

theorem FollowsFrom.entails (h : FollowsFrom rules others) (hpair : Entails rules pair goal) :
    Entails others pair goal := by
  obtain ⟨reached, hwalk, hunder⟩ := hpair
  exact (h.entails_of_walk hwalk).trans (entails_of_fallsUnder hunder)

theorem entails_of_mem_closure (h : goal ∈ (ofRules rules).closure pair) :
    Entails rules pair goal :=
  ⟨goal, mem_closure_iff.mp h, .refl goal⟩

theorem entails_any_iff {tag : TagId} :
    Entails rules pair (.any tag) ↔
      ∃ reached ∈ (ofRules rules).closure pair, reached.tag = tag := by
  simp only [Entails, Pair.fallsUnder_any_iff, mem_closure_iff]

theorem entails_exact_iff {tag : TagId} {value : ValueId} :
    Entails rules pair (.exact tag value) ↔
      Pair.exact tag value ∈ (ofRules rules).closure pair := by
  simp only [Entails, Pair.fallsUnder_exact_iff, exists_eq_right, mem_closure_iff]

end RuleGraph

end TagBase
