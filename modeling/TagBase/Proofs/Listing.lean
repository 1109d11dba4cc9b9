import Mathlib.Data.List.Forall2
import TagBase.Listing
import TagBase.Proofs.Catalog
import TagBase.Query.Comparison

namespace TagBase

theorem mapM_eq_ok_iff {α β ε : Type} {f : α → Except ε β} {l : List α} {m : List β} :
    l.mapM f = .ok m ↔ List.Forall₂ (fun a b => f a = .ok b) l m := by
  induction l generalizing m with
  | nil => simp [pure, Except.pure, eq_comm]
  | cons a rest ih =>
      rw [List.mapM_cons, bind_eq_ok_iff, List.forall₂_cons_left_iff]
      simp only [bind_eq_ok_iff, ih]
      constructor
      · rintro ⟨b, hb, bs, hbs, hm⟩
        obtain rfl := Except.ok.inj hm
        exact ⟨b, bs, hb, hbs, rfl⟩
      · rintro ⟨b, bs, hb, hbs, rfl⟩
        exact ⟨b, hb, bs, hbs, rfl⟩

theorem exists_mapM_eq_ok {α β ε : Type} {f : α → Except ε β} {l : List α}
    (h : ∀ a ∈ l, ∃ b, f a = .ok b) : ∃ m, l.mapM f = .ok m := by
  induction l with
  | nil => exact ⟨[], rfl⟩
  | cons a rest ih =>
      obtain ⟨b, hb⟩ := h a (by simp)
      obtain ⟨bs, hbs⟩ := ih fun other hother => h other (List.mem_cons_of_mem _ hother)
      refine ⟨b :: bs, mapM_eq_ok_iff.mpr ?_⟩
      exact .cons hb (mapM_eq_ok_iff.mp hbs)

theorem mem_of_mapM_eq_ok {α β ε : Type} {f : α → Except ε β} {l : List α} {m : List β}
    (h : l.mapM f = .ok m) {b : β} : b ∈ m ↔ ∃ a ∈ l, f a = .ok b := by
  have hall := mapM_eq_ok_iff.mp h
  clear h
  induction hall with
  | nil => simp
  | cons hfirst _ ih => simp [ih, hfirst, eq_comm]

theorem pairwise_of_mapM_eq_ok {α β ε : Type} {f : α → Except ε β} {R : α → α → Prop}
    {S : β → β → Prop} (hRS : ∀ a b x y, f a = .ok x → f b = .ok y → R a b → S x y)
    {l : List α} {m : List β} (h : l.mapM f = .ok m) (hl : l.Pairwise R) : m.Pairwise S := by
  induction mapM_eq_ok_iff.mp h with
  | nil => exact .nil
  | @cons a x l m hfirst hrest ih =>
      obtain ⟨ha, hl⟩ := List.pairwise_cons.mp hl
      have hm := mapM_eq_ok_iff.mpr hrest
      refine List.pairwise_cons.mpr ⟨?_, ih hm hl⟩
      intro y hy
      obtain ⟨b, hb, hfb⟩ := (mem_of_mapM_eq_ok hm).mp hy
      exact hRS a b x y hfirst hfb (ha b hb)

namespace Catalog

theorem resolvePair_eq_ok_iff {catalog : Catalog} {pair : Pair} {listed : ListedPair} :
    catalog.resolvePair pair = .ok listed ↔
      catalog.tags.get? pair.tag = some listed.tag ∧
        match pair.selector with
        | .any => listed.value = none
        | .exact id =>
            ∃ value, catalog.values.get? id = some value ∧ listed.value = some value := by
  obtain ⟨tag, value⟩ := listed
  rw [resolvePair]
  cases catalog.tags.get? pair.tag with
  | none => simp
  | some found =>
      cases pair.selector with
      | any => simp [eq_comm]
      | exact id =>
          cases hvalue : catalog.values.get? id <;> simp [hvalue, eq_comm]

theorem exists_resolvePair_eq_ok {catalog : Catalog} {pair : Pair} (h : catalog.Knows pair) :
    ∃ listed, catalog.resolvePair pair = .ok listed := by
  obtain ⟨number, selector⟩ := pair
  obtain ⟨htag, hvalue⟩ := h
  obtain ⟨tag, htag⟩ := Option.isSome_iff_exists.mp htag
  cases selector with
  | any => exact ⟨⟨tag, none⟩, resolvePair_eq_ok_iff.mpr ⟨htag, rfl⟩⟩
  | exact id =>
      obtain ⟨value, hvalue⟩ := Option.isSome_iff_exists.mp (hvalue id rfl)
      exact ⟨⟨tag, some value⟩, resolvePair_eq_ok_iff.mpr ⟨htag, value, hvalue, rfl⟩⟩

end Catalog

theorem mem_carriedPairs_iff {graph : RuleGraph} {facts : List Fact} {pair : Pair} :
    pair ∈ carriedPairs (some graph) facts ↔
      ∃ fact ∈ facts, pair ∈ graph.closure fact.pair := by
  simp [carriedPairs, OrderedSet.mem_toList]

theorem PairSet.exists_listing {pairs : PairSet} {catalog : Catalog}
    (h : ∀ pair ∈ pairs, catalog.Knows pair) :
    ∃ listed, pairs.listing catalog = .ok listed ∧
      ∀ entry, entry ∈ listed ↔ ∃ pair ∈ pairs, catalog.resolvePair pair = .ok entry := by
  obtain ⟨entries, hentries⟩ := exists_mapM_eq_ok (l := pairs.toList) fun pair hpair =>
    Catalog.exists_resolvePair_eq_ok (h pair hpair)
  refine ⟨_, by rw [listing, hentries]; rfl, ?_⟩
  intro entry
  rw [List.mem_mergeSort, mem_of_mapM_eq_ok hentries]
  rfl

/-- An entry of a listing shows a tag with a value that stands to a literal as an operator asks. -/
def ListedPair.Shows (entry : ListedPair) (tag : Tag) (op : Operator) (literal : String) : Prop :=
  entry.tag = tag ∧
    ∃ value, entry.value = some value ∧ op.matchesNames value.name literal = true

section Listed

variable {pairs : PairSet} {catalog : Catalog} {listed : List ListedPair} {tag : Tag}
  (hlisted : ∀ entry, entry ∈ listed ↔ ∃ pair ∈ pairs, catalog.resolvePair pair = .ok entry)
  (hknows : ∀ pair ∈ pairs, catalog.Knows pair)
  (htag : catalog.tags.get? tag.id = some tag)

include hlisted hknows htag

theorem exists_listed_tag_iff :
    (∃ entry ∈ listed, entry.tag = tag) ↔ ∃ pair ∈ pairs, pair.tag = tag.id := by
  constructor
  · rintro ⟨entry, hentry, rfl⟩
    obtain ⟨pair, hpair, hresolve⟩ := (hlisted entry).mp hentry
    have hget := (Catalog.resolvePair_eq_ok_iff.mp hresolve).1
    exact ⟨pair, hpair, (Registry.get?_eq_some_iff.mp hget).2.symm⟩
  · rintro ⟨pair, hpair, heq⟩
    obtain ⟨entry, hresolve⟩ := Catalog.exists_resolvePair_eq_ok (hknows pair hpair)
    refine ⟨entry, (hlisted entry).mpr ⟨pair, hpair, hresolve⟩, ?_⟩
    have hget := (Catalog.resolvePair_eq_ok_iff.mp hresolve).1
    rw [heq, htag] at hget
    exact (Option.some.inj hget).symm

theorem exists_shows_iff {op : Operator} {literal : String} :
    (∃ entry ∈ listed, entry.Shows tag op literal) ↔
      ∃ value ∈ catalog.values.records,
        op.matchesNames value.name literal = true ∧ Pair.exact tag.id value.id ∈ pairs := by
  constructor
  · rintro ⟨entry, hentry, rfl, value, hvalue, hmatches⟩
    obtain ⟨⟨number, selector⟩, hpair, hresolve⟩ := (hlisted entry).mp hentry
    obtain ⟨hget, hselector⟩ := Catalog.resolvePair_eq_ok_iff.mp hresolve
    obtain rfl : entry.tag.id = number := (Registry.get?_eq_some_iff.mp hget).2
    cases selector with
    | any => simp [hvalue] at hselector
    | exact id =>
        obtain ⟨found, hfound, heq⟩ := hselector
        obtain rfl : value = found := by simpa [hvalue] using heq
        obtain ⟨hrecord, rfl⟩ := Registry.get?_eq_some_iff.mp hfound
        exact ⟨value, hrecord, hmatches, hpair⟩
  · rintro ⟨value, hrecord, hmatches, hpair⟩
    obtain ⟨entry, hresolve⟩ := Catalog.exists_resolvePair_eq_ok (hknows _ hpair)
    refine ⟨entry, (hlisted entry).mpr ⟨_, hpair, hresolve⟩, ?_⟩
    obtain ⟨hget, found, hfound, hvalue⟩ := Catalog.resolvePair_eq_ok_iff.mp hresolve
    have htagEq : entry.tag = tag := by
      rw [show (Pair.exact tag.id value.id).tag = tag.id from rfl, htag] at hget
      exact (Option.some.inj hget).symm
    have hvalueEq : found = value := by
      rw [Registry.get?_eq_some_iff.mpr ⟨hrecord, rfl⟩] at hfound
      exact (Option.some.inj hfound).symm
    exact ⟨htagEq, found, hvalue, hvalueEq ▸ hmatches⟩

end Listed

end TagBase
