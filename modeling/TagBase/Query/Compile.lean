import TagBase.Catalog
import TagBase.Matcher
import TagBase.Query.Basic
import TagBase.Query.Comparison

namespace TagBase

def Catalog.resolveTag (catalog : Catalog) (name : String) : Except Error Tag :=
  match catalog.tags.find? name with
  | some tag => .ok tag
  | none => .error (.unknownTag name)

/-- The known values that stand to a literal as the operator asks, in the order of their
numbers. -/
def Catalog.valuesMatching (catalog : Catalog) (op : Operator) (literal : String) : List Value :=
  catalog.values.records.filter fun value => op.matchesNames value.name literal

namespace Query

/-- Everything that implies the tag with one of the values that the operator admits. Equality must
admit a known value. -/
def valueClosure (catalog : Catalog) (graph : RuleGraph) (tag : Tag) (op : Operator)
    (literal : String) : Except Error PairSet :=
  let seeds := (catalog.valuesMatching op literal).map fun value => Pair.exact tag.id value.id
  if op = .eq ∧ seeds = [] then .error (.unknownValue literal)
  else .ok (graph.implyingClosure seeds)

def tagClosure (graph : RuleGraph) (tag : Tag) : PairSet :=
  graph.implyingClosure [Pair.any tag.id]

/-- The matcher of a query. An inequality is decided fact by fact, among the facts that imply the
tag: those that imply equality are left out. -/
def compile (catalog : Catalog) (graph : RuleGraph) : Query → Except Error Matcher
  | .everything => .ok .always
  | .tagged name => do
      let tag ← catalog.resolveTag name
      return .someFact (.within (tagClosure graph tag))
  | .anyValue name => do
      let tag ← catalog.resolveTag name
      return .someFact (.taggedIn (tagClosure graph tag).tags)
  | .valued name op literal => do
      let tag ← catalog.resolveTag name
      if op = .ne then
        let excluded ← valueClosure catalog graph tag .eq literal
        return .someFact (.outside (tagClosure graph tag) excluded)
      else
        return .someFact (.within (← valueClosure catalog graph tag op literal))
  | .both left right => do
      let left ← compile catalog graph left
      let right ← compile catalog graph right
      return .both left right

end Query

end TagBase
