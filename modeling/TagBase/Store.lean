import TagBase.Catalog
import TagBase.Fact.Filter
import TagBase.Rule.Closure

/-!
The store of a tagged collection: a catalog of names, the facts, and the rules. Names come before
their use: facts and rules may only speak of tags and values that the catalog knows.
-/

namespace TagBase

structure Store where
  catalog : Catalog
  facts : OrderedSet Fact
  rules : OrderedSet Rule
deriving DecidableEq

namespace Store

/-- A change to a store: it answers or fails, and leaves a store behind in either case. -/
abbrev Change (α : Type) := ExceptT Error (StateM Store) α

def empty : Store := ⟨.empty, .empty, .empty⟩

def ruleGraph (store : Store) : RuleGraph := .ofRules store.rules.toList

/-- The facts that a filter accepts, in ascending order. The facts of one file stand together, so a
filter on a file looks only at the stretch that starts where the least fact of that file would
stand. -/
def find (store : Store) (filter : Filter) : List Fact :=
  match filter.file with
  | none => store.facts.toList.filter filter.accepts
  | some file =>
      let stretch := store.facts.toList.dropWhile fun fact => compare fact ⟨file, ⟨0⟩, none⟩ == .lt
      (stretch.takeWhile fun fact => fact.file == file).filter filter.accepts

def count (store : Store) (filter : Filter) : Nat := (store.find filter).length

def contains (store : Store) (fact : Fact) : Bool := decide (0 < store.count (.ofFact fact))

/-- The record with a name in one part of the catalog, which is created if it is new. -/
def create {kind : Kind} (part : Catalog.Part kind) (name : String) : Change (Named kind) := do
  if name = "" then throw (.input part.emptyName)
  let store ← get
  let registry := part.registry store.catalog
  match registry.idOf? name with
  | some id =>
      match registry.get? id with
      | some record => return record
      | none => throw (.storage (part.outOfSync id))
  | none =>
      set { store with catalog := part.replace store.catalog (registry.add name) }
      return registry.next name

def createTag (name : String) : Change Tag := create .tags name

def createValue (name : String) : Change Value := create .values name

def requireTag (tag : TagId) : Change Unit := do
  unless (← get).catalog.tags.contains tag do throw (.input (.unknownTag tag))

/-- Refuses a value that the catalog does not know; no value is no fault. -/
def requireValue (value : Option ValueId) (fault : ValueId → InputFault) : Change Unit := do
  if let some value := value then
    unless (← get).catalog.values.contains value do throw (.input (fault value))

def addRule (rule : Rule) : Change Bool := do
  requireTag rule.source.tag
  requireTag rule.implied.tag
  requireValue rule.source.selector.value? .unknownRuleValue
  requireValue rule.implied.selector.value? .unknownRuleValue
  let store ← get
  set { store with rules := store.rules.insert rule }
  return decide (rule ∉ store.rules)

def removeRule (rule : Rule) : Change Bool := do
  let store ← get
  set { store with rules := store.rules.erase rule }
  return decide (rule ∈ store.rules)

def insertFact (fact : Fact) : Change Bool := do
  requireTag fact.tag
  requireValue fact.value .unknownFactValue
  let store ← get
  set { store with facts := store.facts.insert fact }
  return decide (fact ∉ store.facts)

def deleteFacts (filter : Filter) : Change Nat := do
  let store ← get
  let doomed := store.find filter
  set { store with facts := doomed.foldl .erase store.facts }
  return doomed.length

/-- Removes one fact, which has to be stored. -/
def deleteFact (fact : Fact) : Change Unit := do
  if (← deleteFacts (.ofFact fact)) = 0 then throw (.noSuchFact fact)

/-- Adds facts one after the other and says how many were new; stops at the first that is
refused. -/
def insertFacts : List Fact → Change Nat
  | [] => return 0
  | fact :: rest => do
      let isNew ← insertFact fact
      let others ← insertFacts rest
      return (if isNew then 1 else 0) + others

/-- Gives the tag `dest` to whatever carries the tag `source`, with the same values, and says how
many facts were new. -/
def copyFacts (source dest : TagId) : Change Nat := do
  let carried := (← get).find (.ofTag source)
  insertFacts (carried.map fun fact => { fact with tag := dest })

end Store

end TagBase
