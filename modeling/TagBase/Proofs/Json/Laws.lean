import TagBase.Json.Library

namespace TagBase.Json

def valuesUnder (name : String) (fields : List (String × Json)) : List Json :=
  (fields.filter fun field => field.1 = name).map Prod.snd

mutual

/-- In how many objects a document of a shape may be nested. -/
def Shape.depth : Shape → Nat
  | .optional inner => inner.depth
  | .wrapped inner => inner.depth
  | .record fields => fieldsDepth fields + 1
  | .choice _ carrying => carryingDepth carrying + 1
  | _ => 0

def fieldsDepth : List (Field Shape) → Nat
  | [] => 0
  | ⟨_, shape, _⟩ :: rest => max shape.depth (fieldsDepth rest)

def carryingDepth : List (String × Shape) → Nat
  | [] => 0
  | (_, shape) :: rest => max shape.depth (carryingDepth rest)

end

/-- The library follows no document of a shape so deep as this. -/
def depthLimit : Nat := 128

/-- A document of objects, texts, natural numbers, truth values and nulls. -/
inductive Plain : Json → Prop
  | null : Plain .null
  | bool (value : Bool) : Plain (.bool value)
  | natural (n : Nat) : Plain (.natural n)
  | text (content : String) : Plain (.text (some content))
  | record (fields : List (String × Json)) (h : ∀ field ∈ fields, Plain field.2) :
      Plain (.record fields)

namespace Library

variable (library : Library)

/-- What is printed of a plain document is parsed as this document. -/
def ReadsBack : Prop := ∀ json, Plain json → library.parse? (library.print json) = some json

/-- How the library writes data. -/
structure Writes : Prop where
  bool : ∀ value, library.encode (.bool value) = .bool value
  word32 : ∀ n, library.encode (.word32 n) = .natural n.toNat
  word64 : ∀ n, library.encode (.word64 n) = .natural n.toNat
  text : ∀ content, library.encode (.text content) = .text (some content)
  absent : library.encode .absent = .null
  present : ∀ value, library.encode (.present value) = library.encode value
  wrapped : ∀ value, library.encode (.wrapped value) = library.encode value
  record : ∀ fields, library.encode (.record fields) =
    .record (fields.map fun field => (field.1, library.encode field.2))
  alone : ∀ name, library.encode (.alone name) = .text (some name)
  carrying : ∀ name value,
    library.encode (.carrying name value) = .record [(name, library.encode value)]

/-- A document gives a field its value, by a single member or by leaving the field out. -/
def Gives (members : List (String × Json)) (field : Field Shape) (value : Data) : Prop :=
  (∃ json, valuesUnder field.name members = [json] ∧
    library.decode? field.shape json = some value) ∨
  (valuesUnder field.name members = [] ∧ field.default? = some value)

/-- What the library reads. Members of an object stand in any order, and those that are not asked
for are passed over. -/
structure Reads : Prop where
  bool : ∀ value, library.decode? .bool (.bool value) = some (.bool value)
  word32 : ∀ n : UInt32, library.decode? .word32 (.natural n.toNat) = some (.word32 n)
  word64 : ∀ n : UInt64, library.decode? .word64 (.natural n.toNat) = some (.word64 n)
  text : ∀ content, library.decode? .text (.text (some content)) = some (.text content)
  absent : ∀ inner, library.decode? (.optional inner) .null = some .absent
  present : ∀ inner json value, json ≠ .null → library.decode? inner json = some value →
    library.decode? (.optional inner) json = some (.present value)
  wrapped : ∀ inner json value, library.decode? inner json = some value →
    library.decode? (.wrapped inner) json = some (.wrapped value)
  record : ∀ fields members values, (Shape.record fields).depth < depthLimit →
    (fields.map Field.name).Nodup → values.map Prod.fst = fields.map Field.name →
    (∀ field ∈ fields, ∀ value, (field.name, value) ∈ values →
      library.Gives members field value) →
    library.decode? (.record fields) (.record members) = some (.record values)
  alone : ∀ alone carrying name, (alone ++ carrying.map Prod.fst).Nodup → name ∈ alone →
    library.decode? (.choice alone carrying) (.text (some name)) = some (.alone name)
  carrying : ∀ alone carrying name inner json value,
    (Shape.choice alone carrying).depth < depthLimit →
    (alone ++ carrying.map Prod.fst).Nodup → (name, inner) ∈ carrying →
    library.decode? inner json = some value →
    library.decode? (.choice alone carrying) (.record [(name, json)]) =
      some (.carrying name value)

end Library

end TagBase.Json
