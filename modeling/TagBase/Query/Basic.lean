import TagBase.Query.Operator

namespace TagBase

/-- What is asked of a file. -/
inductive Query where
  /-- Nothing: every file is meant. -/
  | everything
  | tagged (tag : String)
  /-- The file carries any value of the tag, or any value of a tag that implies it. -/
  | anyValue (tag : String)
  | valued (tag : String) (op : Operator) (literal : String)
  | both (left right : Query)
deriving DecidableEq

namespace Query

/-- A query that asks for a further one after what was asked before, if anything was. -/
def after : Option Query → Query → Query
  | none, query => query
  | some before, query => .both before query

/-- The conjunction of a list of queries, nested to the left. -/
def all : List Query → Query
  | [] => .everything
  | query :: rest => rest.foldl .both query

theorem all_eq_foldl_after (queries : List Query) :
    all queries =
      (queries.foldl (fun before query => some (after before query)) none).getD .everything := by
  cases queries with
  | nil => rfl
  | cons first rest =>
      rw [List.foldl_cons, after, List.foldl_hom some fun _ _ => rfl]
      rfl

/-- The text that shows a query; a side that asks for nothing is left out. -/
def render : Query → String
  | .everything => ""
  | .tagged tag => tag
  | .anyValue tag => tag ++ "=*"
  | .valued tag op literal => tag ++ " " ++ op.symbol ++ " " ++ literal
  | .both .everything right => right.render
  | .both left .everything => left.render
  | .both left right => "(" ++ left.render ++ " and " ++ right.render ++ ")"

end Query

end TagBase
