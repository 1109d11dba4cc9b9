import TagBase.Fact.Basic
import TagBase.Query.Operator

namespace TagBase

/-- Why a text is no query. Positions are byte offsets in UTF-8. -/
inductive QueryFault where
  | unknownOperator (symbol : String)
  | unclosedQuote (start : Nat)
  | andWithoutLeft (start : Nat)
  | andWithoutRight
  | operatorWithoutTag (op : Operator) (start : Nat)
  | missingValue (tag : String) (op : Operator)
  | expectedValue (tag : String) (op : Operator) (start : Nat)
  | emptyGroup
  | unclosedGroup (start : Nat)
  | unexpectedClose (start : Nat)
deriving DecidableEq

inductive Unsupported where
  | disjunction
  | negation
deriving DecidableEq

inductive InputFault where
  | emptyTagName
  | emptyValueName
  | unknownTag (tag : TagId)
  | unknownRuleValue (value : ValueId)
  | unknownFactValue (value : ValueId)
deriving DecidableEq

inductive StorageFault where
  | tagOutOfSync (tag : TagId)
  | valueOutOfSync (value : ValueId)
  | missingTag (tag : TagId)
  | missingValue (value : ValueId)
deriving DecidableEq

inductive SettingsFault where
  | malformed
  | zeroThreshold
deriving DecidableEq

inductive FileFault where
  | notFound
  | notText
deriving DecidableEq

inductive Error where
  | unknownTag (name : String)
  | unknownValue (name : String)
  | unsupported (form : Unsupported)
  | noSuchFact (fact : Fact)
  | query (fault : QueryFault)
  | input (fault : InputFault)
  | settings (path : Option String) (fault : SettingsFault)
  | storage (fault : StorageFault)
  | file (fault : FileFault)
deriving DecidableEq

instance decidableEqExcept {ε α : Type} [DecidableEq ε] [DecidableEq α] :
    DecidableEq (Except ε α)
  | .ok a, .ok b => decidable_of_iff (a = b) (by simp)
  | .error a, .error b => decidable_of_iff (a = b) (by simp)
  | .ok _, .error _ => isFalse (by simp)
  | .error _, .ok _ => isFalse (by simp)

theorem bind_eq_ok_iff {ε α β : Type} {result : Except ε α} {next : α → Except ε β} {b : β} :
    (result >>= next) = .ok b ↔ ∃ a, result = .ok a ∧ next a = .ok b := by
  cases result <;> simp [bind, Except.bind]

theorem bind_eq_error_iff {ε α β : Type} {result : Except ε α} {next : α → Except ε β} {error : ε} :
    (result >>= next) = .error error ↔
      result = .error error ∨ ∃ a, result = .ok a ∧ next a = .error error := by
  cases result <;> simp [bind, Except.bind]

theorem exists_eq_ok_of_isOk {ε α : Type} {result : Except ε α} (h : result.isOk = true) :
    ∃ a, result = .ok a := by
  cases result with
  | error error => contradiction
  | ok a => exact ⟨a, rfl⟩

def QueryFault.message : QueryFault → String
  | .unknownOperator symbol => "unknown comparison operator: " ++ symbol
  | .unclosedQuote start => "missing closing quote near byte " ++ start.repr
  | .andWithoutLeft start => "'and' without left operand near byte " ++ start.repr
  | .andWithoutRight => "'and' without right operand"
  | .operatorWithoutTag op start =>
      "operator '" ++ op.symbol ++ "' without tag name near byte " ++ start.repr
  | .missingValue tag op => "missing value after '" ++ tag ++ " " ++ op.symbol ++ "'"
  | .expectedValue tag op start =>
      "expected value after '" ++ tag ++ " " ++ op.symbol ++ "' near byte " ++ start.repr
  | .emptyGroup => "empty group"
  | .unclosedGroup start => "missing closing ')' for group opened at byte " ++ start.repr
  | .unexpectedClose start => "unexpected ')' near byte " ++ start.repr

def Unsupported.message : Unsupported → String
  | .disjunction => "or"
  | .negation => "not"

def InputFault.message : InputFault → String
  | .emptyTagName => "tag name must not be empty"
  | .emptyValueName => "value name must not be empty"
  | .unknownTag tag => "unknown tag " ++ tag.render
  | .unknownRuleValue value => "implication references unknown value " ++ value.render
  | .unknownFactValue value => "fact references unknown value " ++ value.render

def StorageFault.message : StorageFault → String
  | .tagOutOfSync tag => "tag index out of sync for " ++ tag.render
  | .valueOutOfSync value => "value index out of sync for " ++ value.render
  | .missingTag tag => "fact references missing tag " ++ tag.render
  | .missingValue value => "fact references missing value " ++ value.render

def SettingsFault.message : SettingsFault → String
  | .malformed => "invalid engine config"
  | .zeroThreshold => "parallel_threshold must be at least 1"

def FileFault.message : FileFault → String
  | .notFound => "No such file or directory (os error 2)"
  | .notText => "stream did not contain valid UTF-8"

namespace Error

def valueText : Option ValueId → String
  | none => "None"
  | some value => "Some(ValueId(" ++ value.num.toNat.repr ++ "))"

def message : Error → String
  | .unknownTag name => "no such tag: " ++ name
  | .unknownValue name => "no such value: " ++ name
  | .unsupported form => "unsupported query expression: " ++ form.message
  | .noSuchFact fact =>
      "file " ++ fact.file.render ++ " is not tagged " ++ fact.tag.render ++ " with value " ++
        valueText fact.value
  | .query fault => "Query parse error: " ++ fault.message
  | .input fault => "Invalid input: " ++ fault.message
  | .settings none fault => "Configuration error: " ++ fault.message
  | .settings (some path) fault => "Configuration error: " ++ path ++ ": " ++ fault.message
  | .storage fault => "Storage error: " ++ fault.message
  | .file fault => "IO error: " ++ fault.message

end Error

end TagBase
