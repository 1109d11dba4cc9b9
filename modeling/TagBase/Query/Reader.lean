import TagBase.Query.Basic
import TagBase.Query.Token

/-!
Reading a query from its tokens, left to right. Terms that follow each other, with or without an
`and` between them, are asked for together; a group in parentheses is read on its own while the
conjunction around it waits.
-/

namespace TagBase

/-- A group that is open: where it was opened, and what was asked before it. -/
structure OpenGroup where
  start : Nat
  before : Option Query
deriving DecidableEq

namespace Query

/-- The term that compares a tag with a value. An asterisk without quotes asks for equality with
any value. -/
def comparing (tag : String) (op : Operator) (value : String) (quoted : Bool) : Query :=
  if quoted = false ∧ value = "*" ∧ op = .eq then .anyValue tag else .valued tag op value

/-- What a text asks for that ends inside the given open groups, the innermost first. -/
def finish (groups : List OpenGroup) (before : Option Query) : Except Error Query :=
  match groups, before with
  | [], none => .ok .everything
  | [], some query => .ok query
  | _ :: _, none => .error (.query .emptyGroup)
  | group :: _, some _ => .error (.query (.unclosedGroup group.start))

/-- Reads on inside the given open groups, the innermost first, after what the conjunction at hand
has asked so far. -/
def readFrom (groups : List OpenGroup) (before : Option Query) : List Token → Except Error Query
  | [] => finish groups before
  | token :: rest =>
      match token.kind with
      | .openGroup => readFrom (⟨token.start, before⟩ :: groups) none rest
      | .closeGroup =>
          match groups, before with
          | [], _ => .error (.query (.unexpectedClose token.start))
          | _ :: _, none => .error (.query .emptyGroup)
          | group :: outer, some query => readFrom outer (some (after group.before query)) rest
      | .and =>
          match before, rest with
          | none, _ => .error (.query (.andWithoutLeft token.start))
          | some _, [] => .error (.query .andWithoutRight)
          | some _, next :: _ =>
              if next.kind = .closeGroup then .error (.query .andWithoutRight)
              else readFrom groups before rest
      | .or => .error (.unsupported .disjunction)
      | .not => .error (.unsupported .negation)
      | .bang => .error (.unsupported .negation)
      | .operator op => .error (.query (.operatorWithoutTag op token.start))
      | .name tag _ =>
          match rest with
          | ⟨.operator op, _⟩ :: [] => .error (.query (.missingValue tag op))
          | ⟨.operator op, _⟩ :: ⟨.name value quoted, _⟩ :: rest =>
              readFrom groups (some (after before (comparing tag op value quoted))) rest
          | ⟨.operator op, _⟩ :: next :: _ =>
              .error (.query (.expectedValue tag op next.start))
          | rest => readFrom groups (some (after before (.tagged tag))) rest

def ofTokens (tokens : List Token) : Except Error Query := readFrom [] none tokens

def read (text : String) : Except Error Query := do ofTokens (← Token.scan text)

end Query

end TagBase
