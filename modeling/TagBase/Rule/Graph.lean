import TagBase.Rule.Basic

namespace TagBase

/-- Rules filed under tags, those of one tag in the order in which they were filed. -/
abbrev RuleIndex := List (TagId × List Rule)

namespace RuleIndex

def find (index : RuleIndex) (tag : TagId) : List Rule :=
  (index.lookup tag).getD []

def add (tag : TagId) (rule : Rule) : RuleIndex → RuleIndex
  | [] => [(tag, [rule])]
  | (other, rules) :: rest =>
      if other = tag then (other, rules ++ [rule]) :: rest
      else (other, rules) :: add tag rule rest

end RuleIndex

/-- Distinct rules, filed under the tags at both of their ends. -/
structure RuleGraph where
  bySource : RuleIndex
  byImplied : RuleIndex
  size : Nat

namespace RuleGraph

def empty : RuleGraph := ⟨[], [], 0⟩

def rulesFrom (graph : RuleGraph) (tag : TagId) : List Rule := graph.bySource.find tag

def rulesInto (graph : RuleGraph) (tag : TagId) : List Rule := graph.byImplied.find tag

def contains (graph : RuleGraph) (rule : Rule) : Bool :=
  decide (rule ∈ graph.rulesFrom rule.source.tag)

/-- The graph with one more rule; a rule that it holds changes nothing. -/
def insert (graph : RuleGraph) (rule : Rule) : RuleGraph :=
  if graph.contains rule then graph
  else
    { bySource := graph.bySource.add rule.source.tag rule
      byImplied := graph.byImplied.add rule.implied.tag rule
      size := graph.size + 1 }

def ofRules (rules : List Rule) : RuleGraph := rules.foldl insert empty

/-- The pairs that a pair implies by one rule. A rule applies to a pair of its source's tag when
its source means any value or has the pair's own selector. -/
def impliedBy (graph : RuleGraph) (pair : Pair) : List Pair :=
  (graph.rulesFrom pair.tag).filterMap fun rule =>
    if rule.source.selector = .any ∨ rule.source.selector = pair.selector then some rule.implied
    else none

/-- The pairs that imply a pair by one rule. A rule into the pair's tag counts when the pair means
any value or when the rule implies exactly the pair's selector. -/
def implying (graph : RuleGraph) (pair : Pair) : List Pair :=
  (graph.rulesInto pair.tag).filterMap fun rule =>
    if pair.selector = .any ∨ rule.implied.selector = pair.selector then some rule.source
    else none

end RuleGraph

end TagBase
