import TagBase.Fact.Grouping
import TagBase.Rule.Closure

namespace TagBase

inductive FactTest where
  | within (pairs : PairSet)
  | taggedIn (tags : OrderedSet TagId)
  | outside (family excluded : PairSet)
deriving DecidableEq

namespace FactTest

def accepts : FactTest → Fact → Bool
  | .within pairs, fact => pairs.covers fact
  | .taggedIn tags, fact => decide (fact.tag ∈ tags)
  | .outside family excluded, fact => family.covers fact && !excluded.covers fact

/-- The tags of which a fact that passes has one. -/
def candidateTags : FactTest → OrderedSet TagId
  | .within pairs => pairs.tags
  | .taggedIn tags => tags
  | .outside family _ => family.tags

end FactTest

abbrev GroupFilter := (FileFacts → Bool) → List FileFacts → List FileFacts

inductive Matcher where
  | always
  | someFact (test : FactTest)
  | both (left right : Matcher)
deriving DecidableEq

namespace Matcher

def holds : Matcher → List Fact → Bool
  | .always, _ => true
  | .someFact test, facts => facts.any test.accepts
  | .both left right, facts => left.holds facts && right.holds facts

/-- A smallest set of tags of which each matching file carries one; of sets of equal size the
leftmost. There is none where every file matches. -/
def candidateTags : Matcher → Option (OrderedSet TagId)
  | .always => none
  | .someFact test => some test.candidateTags
  | .both left right =>
      match left.candidateTags, right.candidateTags with
      | some l, some r => if r.size < l.size then some r else some l
      | some l, none => some l
      | none, r => r

def select (matcher : Matcher) (groups : List FileFacts) : List FileFacts :=
  groups.filter fun group => matcher.holds group.facts

/-- The groups that match, where `threshold` groups or more are left to `shared`, a filter that may
share the work out. -/
def selectWith (shared : GroupFilter) (threshold : UInt64) (matcher : Matcher)
    (groups : List FileFacts) : List FileFacts :=
  if threshold.toNat ≤ groups.length then shared (fun group => matcher.holds group.facts) groups
  else matcher.select groups

def matchingFiles (shared : GroupFilter) (threshold : UInt64) (matcher : Matcher)
    (groups : List FileFacts) : OrderedSet FileId :=
  .ofList ((matcher.selectWith shared threshold groups).map FileFacts.file)

end Matcher

end TagBase
