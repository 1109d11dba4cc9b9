import TagBase.Fact.Basic
import TagBase.Rule.Graph
import TagBase.Rule.Walk

namespace TagBase

/-- A set of pairs, read as a condition on facts. -/
abbrev PairSet := OrderedSet Pair

namespace PairSet

def tags (pairs : PairSet) : OrderedSet TagId := .ofList (pairs.toList.map Pair.tag)

/-- Whether a fact is covered: a pair with any value covers all facts of its tag, an exact pair
those that carry its value. -/
def covers (pairs : PairSet) (fact : Fact) : Bool :=
  decide (Pair.any fact.tag ∈ pairs) ||
    fact.value.any fun value => decide (Pair.exact fact.tag value ∈ pairs)

end PairSet

namespace RuleGraph

def walkForward (graph : RuleGraph) (seeds : List Pair) : Walk :=
  Walk.run graph.impliedBy ((Walk.start seeds).met.size + graph.size) (Walk.start seeds)

def walkBackward (graph : RuleGraph) (seeds : List Pair) : Walk :=
  Walk.run graph.implying ((Walk.start seeds).met.size + graph.size) (Walk.start seeds)

/-- Every pair that one of the seeds implies, the seeds included. -/
def closureOf (graph : RuleGraph) (seeds : List Pair) : PairSet := (graph.walkForward seeds).met

def closure (graph : RuleGraph) (pair : Pair) : PairSet := graph.closureOf [pair]

/-- Every pair that implies one of the seeds, the seeds included. -/
def implyingClosure (graph : RuleGraph) (seeds : List Pair) : PairSet :=
  (graph.walkBackward seeds).met

end RuleGraph

end TagBase
