import TagBase.Fact.Basic

namespace TagBase

/-- The facts of one file, the unit on which a query is decided. -/
structure FileFacts where
  file : FileId
  facts : List Fact
deriving DecidableEq

/-- Adds a fact behind the others of its file, in a new group where its file has none. -/
def addToGroup (fact : Fact) : List FileFacts → List FileFacts
  | [] => [⟨fact.file, [fact]⟩]
  | group :: rest =>
      match compare fact.file group.file with
      | .lt => ⟨fact.file, [fact]⟩ :: group :: rest
      | .eq => { group with facts := group.facts ++ [fact] } :: rest
      | .gt => group :: addToGroup fact rest

def groupByFile (facts : List Fact) : List FileFacts :=
  facts.foldl (fun groups fact => addToGroup fact groups) []

end TagBase
