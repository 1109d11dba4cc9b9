import TagBase.Fact.Basic

namespace TagBase

/-- Constraints on the columns of a fact; an absent constraint leaves its column free. -/
structure Filter where
  file : Option FileId
  tag : Option TagId
  /-- The constraint `some none` asks for facts without a value. -/
  value : Option (Option ValueId)
deriving DecidableEq

namespace Filter

def all : Filter := ⟨none, none, none⟩

def ofFile (file : FileId) : Filter := { all with file := some file }

def ofTag (tag : TagId) : Filter := { all with tag := some tag }

def ofFact (fact : Fact) : Filter := ⟨some fact.file, some fact.tag, some fact.value⟩

def accepts (filter : Filter) (fact : Fact) : Bool :=
  filter.file.all (· == fact.file) && filter.tag.all (· == fact.tag) &&
    filter.value.all (· == fact.value)

@[simp] theorem accepts_all (fact : Fact) : all.accepts fact = true := rfl

@[simp] theorem accepts_ofFact {fact other : Fact} :
    (ofFact fact).accepts other = true ↔ other = fact := by
  cases fact
  cases other
  simp only [accepts, ofFact, Option.all_some, Bool.and_eq_true, beq_iff_eq, Fact.mk.injEq,
    and_assoc]
  constructor <;> (rintro ⟨rfl, rfl, rfl⟩; simp)

end Filter

end TagBase
