import TagBase.Error
import TagBase.OrderedSet

/-!
The catalog of names: tags and values are numbered from one in the order of their creation, and
found by name and by number. After the last number of 32 bits the numbers begin again at zero, and
a record whose number is given out again makes way for the new one.
-/

namespace TagBase

variable {kind : Kind}

/-- The named things of one kind, in two tables, and the last number given out. -/
structure Registry (kind : Kind) where
  idOfName : List (String × Ident kind)
  /-- The records, in ascending order of their numbers. -/
  records : List (Named kind)
  ascending : records.Pairwise fun a b => compare a.id b.id = .lt
  last : UInt32
deriving DecidableEq

namespace Registry

def empty : Registry kind := ⟨[], [], .nil, 0⟩

def get? (registry : Registry kind) (id : Ident kind) : Option (Named kind) :=
  registry.records.find? fun record => record.id == id

def contains (registry : Registry kind) (id : Ident kind) : Bool := (registry.get? id).isSome

def idOf? (registry : Registry kind) (name : String) : Option (Ident kind) :=
  registry.idOfName.lookup name

def find? (registry : Registry kind) (name : String) : Option (Named kind) :=
  (registry.idOf? name).bind registry.get?

def next (registry : Registry kind) (name : String) : Named kind := ⟨⟨registry.last + 1⟩, name⟩

def add (registry : Registry kind) (name : String) : Registry kind :=
  { idOfName := (name, (registry.next name).id) :: registry.idOfName
    records := placeBy Named.id (registry.next name) registry.records
    ascending := pairwise_placeBy registry.ascending
    last := registry.last + 1 }

end Registry

structure Catalog where
  tags : Registry .tag
  values : Registry .value
deriving DecidableEq

namespace Catalog

def empty : Catalog := ⟨.empty, .empty⟩

/-- One of the registries of a catalog, with what can be wrong about it. -/
structure Part (kind : Kind) where
  registry : Catalog → Registry kind
  replace : Catalog → Registry kind → Catalog
  emptyName : InputFault
  outOfSync : Ident kind → StorageFault

def Part.tags : Part .tag :=
  ⟨Catalog.tags, fun catalog tags => { catalog with tags }, .emptyTagName, .tagOutOfSync⟩

def Part.values : Part .value :=
  ⟨Catalog.values, fun catalog values => { catalog with values }, .emptyValueName,
    .valueOutOfSync⟩

end Catalog

end TagBase
