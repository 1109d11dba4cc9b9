import TagBase.Proofs.Query.Meaning
import TagBase.Proofs.Rule.Entailment

namespace TagBase

open RuleGraph (Entails FollowsFrom entails_any_iff entails_exact_iff)

variable {rules others : List Rule} {catalog : Catalog}

theorem Fact.Implies.of_followsFrom {fact : Fact} {tag : TagId} (h : FollowsFrom rules others)
    (hfact : fact.Implies (.ofRules rules) tag) : fact.Implies (.ofRules others) tag := by
  have hentails : Entails rules fact.pair (.any tag) := entails_any_iff.mpr hfact
  exact entails_any_iff.mp (h.entails hentails)

theorem Fact.ImpliesValue.of_followsFrom {fact : Fact} {tag : TagId} {op : Operator}
    {literal : String} (h : FollowsFrom rules others)
    (hfact : fact.ImpliesValue catalog (.ofRules rules) tag op literal) :
    fact.ImpliesValue catalog (.ofRules others) tag op literal := by
  obtain ⟨value, hvalue, hmatches, hclosure⟩ := hfact
  have hentails : Entails rules fact.pair (.exact tag value.id) := entails_exact_iff.mpr hclosure
  exact ⟨value, hvalue, hmatches, entails_exact_iff.mp (h.entails hentails)⟩

namespace Query

def Positive : Query → Prop
  | .valued _ op _ => op ≠ .ne
  | .both left right => left.Positive ∧ right.Positive
  | _ => True

theorem Holds.of_followsFrom {query : Query} {facts : List Fact} (h : FollowsFrom rules others)
    (hback : query.Positive ∨ FollowsFrom others rules)
    (hquery : query.Holds catalog (.ofRules rules) facts) :
    query.Holds catalog (.ofRules others) facts := by
  induction query with
  | everything => trivial
  | tagged name =>
      obtain ⟨tag, htag, fact, hfact, himplies⟩ := hquery
      exact ⟨tag, htag, fact, hfact, himplies.of_followsFrom h⟩
  | anyValue name =>
      obtain ⟨tag, htag, fact, hfact, pair, hpair, hreached⟩ := hquery
      have hentails : Entails rules pair (.any tag.id) := entails_any_iff.mpr hreached
      exact ⟨tag, htag, fact, hfact, pair, hpair, entails_any_iff.mp (h.entails hentails)⟩
  | valued name op literal =>
      obtain ⟨tag, htag, fact, hfact, hvalue⟩ := hquery
      refine ⟨tag, htag, fact, hfact, ?_⟩
      by_cases hop : op = .ne
      · -- what is left out must not grow, so the new rules have to follow from the old ones
        have hfollows : FollowsFrom others rules := hback.resolve_left (not_not_intro hop)
        rw [if_pos hop] at hvalue ⊢
        obtain ⟨himplies, hunequal⟩ := hvalue
        exact ⟨himplies.of_followsFrom h, fun hequal => hunequal (hequal.of_followsFrom hfollows)⟩
      · rw [if_neg hop] at hvalue ⊢
        exact hvalue.of_followsFrom h
  | both left right ihleft ihright =>
      obtain ⟨hleft, hright⟩ := hquery
      exact ⟨ihleft (hback.imp_left And.left) hleft, ihright (hback.imp_left And.right) hright⟩

end Query

end TagBase
