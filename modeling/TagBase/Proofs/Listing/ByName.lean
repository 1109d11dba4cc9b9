import Mathlib.Data.List.Sort
import TagBase.Proofs.Listing.Order
import TagBase.Proofs.Rule.Closure

namespace TagBase

structure NamedPair where
  tag : String
  value : Option String
deriving DecidableEq

namespace NamedPair

def Before (left right : NamedPair) : Prop :=
  Text.bytes left.tag < Text.bytes right.tag ∨
    left.tag = right.tag ∧
      Text.bytes (left.value.getD "") < Text.bytes (right.value.getD "")

instance : Std.Irrefl Before where
  irrefl names := by
    rintro (h | ⟨-, h⟩) <;> exact List.lt_irrefl _ h

instance : Std.Antisymm Before where
  antisymm left right h h' := by
    exfalso
    rcases h with h | ⟨htag, h⟩
    · rcases h' with h' | ⟨htag', -⟩
      · exact List.lt_asymm h h'
      · rw [htag'] at h
        exact List.lt_irrefl _ h
    · rcases h' with h' | ⟨-, h'⟩
      · rw [htag] at h'
        exact List.lt_irrefl _ h'
      · exact List.lt_asymm h h'

/-- A pair falls under another one of its tag that means any value or the same. -/
def FallsUnder (pair other : NamedPair) : Prop :=
  pair.tag = other.tag ∧ (other.value = none ∨ other.value = pair.value)

theorem fallsUnder_none_iff {pair : NamedPair} {tag : String} :
    pair.FallsUnder ⟨tag, none⟩ ↔ pair.tag = tag := by
  simp [FallsUnder]

theorem fallsUnder_some_iff {pair : NamedPair} {tag value : String} :
    pair.FallsUnder ⟨tag, some value⟩ ↔ pair = ⟨tag, some value⟩ := by
  cases pair
  simp [FallsUnder, eq_comm]

end NamedPair

def ListedPair.names (entry : ListedPair) : NamedPair :=
  ⟨entry.tag.name, entry.value.map Named.name⟩

theorem ListedPair.before_names_iff {left right : ListedPair} :
    left.names.Before right.names ↔ left.Before right := Iff.rfl

namespace Catalog

def namesOf? (catalog : Catalog) (pair : Pair) : Option NamedPair :=
  (catalog.resolvePair pair).toOption.map ListedPair.names

variable {catalog : Catalog}

theorem namesOf?_eq_some_iff {pair : Pair} {names : NamedPair} :
    catalog.namesOf? pair = some names ↔
      ∃ entry, catalog.resolvePair pair = .ok entry ∧ entry.names = names := by
  rw [namesOf?]
  cases catalog.resolvePair pair <;> simp [Except.toOption]

theorem exists_namesOf? {pair : Pair} (h : catalog.Knows pair) :
    ∃ names, catalog.namesOf? pair = some names := by
  obtain ⟨entry, hentry⟩ := exists_resolvePair_eq_ok h
  exact ⟨entry.names, namesOf?_eq_some_iff.mpr ⟨entry, hentry, rfl⟩⟩

theorem namesOf?_any_iff {tag : TagId} {names : NamedPair} :
    catalog.namesOf? (.any tag) = some names ↔
      ∃ name, catalog.tags.get? tag = some ⟨tag, name⟩ ∧ names = ⟨name, none⟩ := by
  rw [namesOf?_eq_some_iff]
  simp only [resolvePair_eq_ok_iff, Pair.any]
  constructor
  · rintro ⟨⟨record, value⟩, ⟨htag, rfl⟩, rfl⟩
    obtain ⟨-, rfl⟩ := Registry.get?_eq_some_iff.mp htag
    exact ⟨record.name, htag, rfl⟩
  · rintro ⟨name, htag, rfl⟩
    exact ⟨⟨⟨tag, name⟩, none⟩, ⟨htag, rfl⟩, rfl⟩

theorem namesOf?_exact_iff {tag : TagId} {value : ValueId} {names : NamedPair} :
    catalog.namesOf? (.exact tag value) = some names ↔
      ∃ name word, catalog.tags.get? tag = some ⟨tag, name⟩ ∧
        catalog.values.get? value = some ⟨value, word⟩ ∧ names = ⟨name, some word⟩ := by
  rw [namesOf?_eq_some_iff]
  simp only [resolvePair_eq_ok_iff, Pair.exact]
  constructor
  · rintro ⟨⟨record, _⟩, ⟨htag, found, hvalue, rfl⟩, rfl⟩
    obtain ⟨-, rfl⟩ := Registry.get?_eq_some_iff.mp htag
    obtain ⟨-, rfl⟩ := Registry.get?_eq_some_iff.mp hvalue
    exact ⟨record.name, found.name, htag, hvalue, rfl⟩
  · rintro ⟨name, word, htag, hvalue, rfl⟩
    exact ⟨⟨⟨tag, name⟩, some ⟨value, word⟩⟩, ⟨htag, _, hvalue, rfl⟩, rfl⟩

theorem get?_tag_of_namesOf? {pair : Pair} {names : NamedPair}
    (h : catalog.namesOf? pair = some names) :
    catalog.tags.get? pair.tag = some ⟨pair.tag, names.tag⟩ := by
  obtain ⟨entry, hentry, rfl⟩ := namesOf?_eq_some_iff.mp h
  have hget := (resolvePair_eq_ok_iff.mp hentry).1
  rw [hget, ← (Registry.get?_eq_some_iff.mp hget).2, ListedPair.names]

section Sound

variable (htags : catalog.tags.Sound) (hvalues : catalog.values.Sound) {p q : Pair}
  {m n : NamedPair} (hp : catalog.namesOf? p = some m) (hq : catalog.namesOf? q = some n)

include htags hp hq

theorem tag_eq_iff_of_namesOf? : p.tag = q.tag ↔ m.tag = n.tag := by
  have hget := get?_tag_of_namesOf? hp
  have hget' := get?_tag_of_namesOf? hq
  constructor
  · intro htag
    rw [htag, hget'] at hget
    exact (congrArg Named.name (Option.some.inj hget)).symm
  · exact htags.id_eq_of_name_eq hget hget'

include hvalues

theorem eq_iff_of_namesOf? : p = q ↔ m = n := by
  constructor
  · rintro rfl
    exact Option.some.inj (hp.symm.trans hq)
  · rintro rfl
    obtain ⟨first, hfirst, rfl⟩ := namesOf?_eq_some_iff.mp hp
    obtain ⟨second, hsecond, hnames⟩ := namesOf?_eq_some_iff.mp hq
    obtain ⟨htag, hvalue⟩ := NamedPair.mk.inj hnames
    refine resolvePair_injective htags hvalues hfirst hsecond ?_
    rw [ListedPair.compareNames_eq_eq_iff, ListedPair.valueName, ListedPair.valueName, hvalue]
    exact ⟨htag.symm, rfl⟩

theorem fallsUnder_iff_of_namesOf? : p.FallsUnder q ↔ m.FallsUnder n := by
  obtain ⟨tag, _ | value⟩ := q
  · obtain ⟨name, hget, rfl⟩ := namesOf?_any_iff.mp hq
    rw [NamedPair.fallsUnder_none_iff, ← tag_eq_iff_of_namesOf? htags hp hq]
    exact Pair.fallsUnder_any_iff
  · obtain ⟨name, word, hget, hvalue, rfl⟩ := namesOf?_exact_iff.mp hq
    rw [NamedPair.fallsUnder_some_iff, ← eq_iff_of_namesOf? htags hvalues hp hq]
    exact Pair.fallsUnder_exact_iff

end Sound

end Catalog

end TagBase
