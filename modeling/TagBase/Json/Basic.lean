namespace TagBase

/-- A JSON document. A text is absent where its escapes leave half of a surrogate pair alone, since
no characters spell it then. -/
inductive Json where
  | null
  | bool (value : Bool)
  /-- A number written in digits alone. -/
  | natural (n : Nat)
  | number (literal : String)
  | text (content : Option String)
  | array (items : List Json)
  /-- An object, its members as written, repeated keys included. -/
  | object (members : List (Option String × Json))

namespace Json

def membersOf (fields : List (String × Json)) : List (Option String × Json) :=
  fields.map fun field => (some field.1, field.2)

def record (fields : List (String × Json)) : Json := .object (membersOf fields)

end Json

end TagBase
