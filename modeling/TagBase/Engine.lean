import TagBase.Listing
import TagBase.Query.Compile
import TagBase.Query.Reader
import TagBase.Settings
import TagBase.Store

/-!
Queries put to a store: compiled against its names and rules, decided on its facts, and answered
with files or with a listing. A compiled query keeps the rules that it was compiled with.
-/

namespace TagBase

structure CompiledQuery where
  matcher : Matcher
  graph : RuleGraph

inductive Projection where
  | files
  | pairs
deriving DecidableEq

inductive Answer where
  | files (files : OrderedSet FileId)
  | pairs (pairs : List ListedPair)
deriving DecidableEq

namespace Store

def compile (store : Store) (query : Query) : Except Error CompiledQuery := do
  let graph := store.ruleGraph
  return ⟨← query.compile store.catalog graph, graph⟩

/-- The groups of facts that a matcher has to look at. With the prefilter these are the files that
carry a candidate tag, with all their facts. -/
def candidates (store : Store) (settings : Settings) (matcher : Matcher) : List FileFacts :=
  match if settings.prefilter then matcher.candidateTags else none with
  | none => groupByFile (store.find .all)
  | some tags =>
      let files : OrderedSet FileId :=
        .ofList (tags.toList.flatMap fun tag => (store.find (.ofTag tag)).map Fact.file)
      groupByFile (files.toList.flatMap fun file => store.find (.ofFile file))

def matchingGroups (shared : GroupFilter) (store : Store) (settings : Settings)
    (compiled : CompiledQuery) : List FileFacts :=
  compiled.matcher.selectWith shared settings.parallelThreshold
    (store.candidates settings compiled.matcher)

def matchingFiles (shared : GroupFilter) (store : Store) (settings : Settings)
    (compiled : CompiledQuery) : OrderedSet FileId :=
  compiled.matcher.matchingFiles shared settings.parallelThreshold
    (store.candidates settings compiled.matcher)

def matchingPairs (shared : GroupFilter) (store : Store) (settings : Settings)
    (compiled : CompiledQuery) : Except Error (List ListedPair) :=
  let groups := store.matchingGroups shared settings compiled
  let implied := if settings.listImplied then some compiled.graph else none
  (carriedPairs implied (groups.flatMap FileFacts.facts)).listing store.catalog

/-- Answers a compiled query; where there are many candidates, they are left to `shared`. -/
def runWith (shared : GroupFilter) (store : Store) (settings : Settings)
    (compiled : CompiledQuery) : Projection → Except Error Answer
  | .files => return .files (store.matchingFiles shared settings compiled)
  | .pairs => return .pairs (← store.matchingPairs shared settings compiled)

def run (store : Store) (settings : Settings) (compiled : CompiledQuery)
    (projection : Projection) : Except Error Answer :=
  store.runWith List.filter settings compiled projection

def ask (store : Store) (settings : Settings) (query : Query) (projection : Projection) :
    Except Error Answer := do
  store.run settings (← store.compile query) projection

def askText (store : Store) (settings : Settings) (text : String) (projection : Projection) :
    Except Error Answer := do
  store.ask settings (← Query.read text) projection

end Store

end TagBase
