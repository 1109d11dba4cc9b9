import TagBase.Catalog
import TagBase.Fact.Grouping
import TagBase.Rule.Closure

namespace TagBase

structure ListedPair where
  tag : Tag
  value : Option Value
deriving DecidableEq

namespace ListedPair

def valueName (pair : ListedPair) : String := (pair.value.map Named.name).getD ""

/-- The order of listings: by the name of the tag, then by the name of the value. -/
def compareNames (left right : ListedPair) : Ordering :=
  compareLex (compareOn fun pair => pair.tag.name) (compareOn valueName) left right

end ListedPair

/-- The names behind a pair; a pair with any value is listed without one. -/
def Catalog.resolvePair (catalog : Catalog) (pair : Pair) : Except Error ListedPair :=
  match catalog.tags.get? pair.tag with
  | none => .error (.storage (.missingTag pair.tag))
  | some tag =>
      match pair.selector with
      | .any => .ok ⟨tag, none⟩
      | .exact id =>
          match catalog.values.get? id with
          | none => .error (.storage (.missingValue id))
          | some value => .ok ⟨tag, some value⟩

/-- The pairs that a list of facts carries, with all that they imply where a graph is given. -/
def carriedPairs (implied : Option RuleGraph) (facts : List Fact) : PairSet :=
  match implied with
  | none => .ofList (facts.map Fact.pair)
  | some graph => .ofList (facts.flatMap fun fact => (graph.closure fact.pair).toList)

def PairSet.listing (pairs : PairSet) (catalog : Catalog) : Except Error (List ListedPair) := do
  let listed ← pairs.toList.mapM catalog.resolvePair
  return listed.mergeSort fun left right => (left.compareNames right).isLE

end TagBase
