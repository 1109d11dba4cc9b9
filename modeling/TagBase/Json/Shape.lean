namespace TagBase.Json

/-- A value, taken apart into its fields and alternatives. -/
inductive Data where
  | bool (value : Bool)
  | word32 (n : UInt32)
  | word64 (n : UInt64)
  | text (content : String)
  | absent
  | present (value : Data)
  /-- A value of a type that does nothing but give another one a name. -/
  | wrapped (value : Data)
  | record (fields : List (String × Data))
  | alone (name : String)
  | carrying (name : String) (value : Data)

/-- A field of a record, with what it holds where a document leaves it out, if it may. -/
structure Field (Shape : Type) where
  name : String
  shape : Shape
  default? : Option Data

/-- What the values of a type are made of. -/
inductive Shape where
  | bool
  | word32
  | word64
  | text
  | optional (inner : Shape)
  | wrapped (inner : Shape)
  | record (fields : List (Field Shape))
  | choice (alone : List String) (carrying : List (String × Shape))

end TagBase.Json
