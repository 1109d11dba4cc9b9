import TagBase.Proofs.Listing
import TagBase.Proofs.Text.Bytes

namespace TagBase

namespace ListedPair

/-- An entry stands before another one: the bytes of its tag's name come first, or the names of the
tags are the same and the bytes of its value's name come first. -/
def Before (left right : ListedPair) : Prop :=
  Text.bytes left.tag.name < Text.bytes right.tag.name ∨
    left.tag.name = right.tag.name ∧ Text.bytes left.valueName < Text.bytes right.valueName

instance : Std.TransCmp compareNames :=
  inferInstanceAs
    (Std.TransCmp (compareLex (compareOn fun pair : ListedPair => pair.tag.name)
      (compareOn valueName)))

theorem compareNames_eq_eq_iff {left right : ListedPair} :
    left.compareNames right = .eq ↔
      left.tag.name = right.tag.name ∧ left.valueName = right.valueName := by
  rw [compareNames, compareLex_eq_eq, compareOn, compareOn, Std.LawfulEqOrd.compare_eq_iff_eq,
    Std.LawfulEqOrd.compare_eq_iff_eq]

theorem compareNames_eq_lt_iff {left right : ListedPair} :
    left.compareNames right = .lt ↔ left.Before right := by
  rw [compareNames, compareLex, Ordering.then_eq_lt, compareOn, compareOn,
    Std.LawfulEqOrd.compare_eq_iff_eq, Before, Text.bytes_lt_iff, Text.bytes_lt_iff]
  exact or_congr compareOfLessAndEq_eq_lt (and_congr_right fun _ => compareOfLessAndEq_eq_lt)

theorem Before.ne {left right : ListedPair} (h : left.Before right) : left ≠ right := by
  rintro rfl
  have hself : left.compareNames left = .eq := Std.ReflCmp.compare_self
  simp [← compareNames_eq_lt_iff, hself] at h

/-- An entry shows a tag, with the value of a number or with none. -/
def Resolves (entry : ListedPair) (catalog : Catalog) (tag : TagId) (value : Option ValueId) :
    Prop :=
  catalog.tags.get? tag = some entry.tag ∧ value.map catalog.values.get? = entry.value.map some

end ListedPair

theorem Catalog.resolvePair_eq_ok_iff_resolves {catalog : Catalog} {pair : Pair}
    {entry : ListedPair} :
    catalog.resolvePair pair = .ok entry ↔
      entry.Resolves catalog pair.tag pair.selector.value? := by
  rw [resolvePair_eq_ok_iff, ListedPair.Resolves]
  refine and_congr_right fun _ => ?_
  cases pair.selector with
  | any => cases entry.value <;> simp [Selector.value?]
  | exact id =>
      cases entry.value with
      | none => simp [Selector.value?]
      | some value => simp [Selector.value?]

theorem Catalog.resolvePair_injective {catalog : Catalog} (htags : catalog.tags.Sound)
    (hvalues : catalog.values.Sound) {p q : Pair} {a b : ListedPair}
    (ha : catalog.resolvePair p = .ok a) (hb : catalog.resolvePair q = .ok b)
    (hnames : a.compareNames b = .eq) : p = q := by
  obtain ⟨htag, hvalue⟩ := ListedPair.compareNames_eq_eq_iff.mp hnames
  obtain ⟨ptag, pselector⟩ := p
  obtain ⟨qtag, qselector⟩ := q
  obtain ⟨hatag, havalue⟩ := resolvePair_eq_ok_iff.mp ha
  obtain ⟨hbtag, hbvalue⟩ := resolvePair_eq_ok_iff.mp hb
  obtain rfl : ptag = qtag := htags.id_eq_of_name_eq hatag hbtag htag
  cases pselector with
  | any =>
      cases qselector with
      | any => rfl
      | exact j =>
          obtain ⟨second, hsecond, hvalueb⟩ := hbvalue
          have hnone : a.value = none := havalue
          have hempty : second.name = "" := by
            simpa [ListedPair.valueName, hnone, hvalueb] using hvalue.symm
          exact absurd hempty (hvalues.name_ne_empty_of_get? hsecond)
  | exact i =>
      obtain ⟨first, hfirst, hvaluea⟩ := havalue
      cases qselector with
      | any =>
          have hnone : b.value = none := hbvalue
          have hempty : first.name = "" := by
            simpa [ListedPair.valueName, hnone, hvaluea] using hvalue
          exact absurd hempty (hvalues.name_ne_empty_of_get? hfirst)
      | exact j =>
          obtain ⟨second, hsecond, hvalueb⟩ := hbvalue
          rw [ListedPair.valueName, ListedPair.valueName, hvaluea, hvalueb] at hvalue
          rw [hvalues.id_eq_of_name_eq hfirst hsecond hvalue]

theorem PairSet.pairwise_before_of_listing {catalog : Catalog} (htags : catalog.tags.Sound)
    (hvalues : catalog.values.Sound) {pairs : PairSet} {listed : List ListedPair}
    (h : pairs.listing catalog = .ok listed) : listed.Pairwise ListedPair.Before := by
  obtain ⟨entries, hentries, hsorted⟩ := bind_eq_ok_iff.mp h
  obtain rfl := Except.ok.inj hsorted
  have hne : entries.Pairwise fun a b => a.compareNames b ≠ .eq := by
    refine pairwise_of_mapM_eq_ok ?_ hentries pairs.nodup_toList
    intro p q a b ha hb hpq hnames
    exact hpq (Catalog.resolvePair_injective htags hvalues ha hb hnames)
  have hle : (entries.mergeSort fun a b => (a.compareNames b).isLE).Pairwise
      fun a b => (a.compareNames b).isLE := by
    apply List.pairwise_mergeSort
    · intro a b c hab hbc
      exact Std.TransCmp.isLE_trans hab hbc
    · intro a b
      rw [show b.compareNames a = (a.compareNames b).swap from Std.OrientedCmp.eq_swap]
      cases a.compareNames b <;> rfl
  have hperm := entries.mergeSort_perm fun a b => (a.compareNames b).isLE
  have hsym : ∀ {a b : ListedPair}, a.compareNames b ≠ .eq → b.compareNames a ≠ .eq := by
    intro a b hab hba
    exact hab (Std.OrientedCmp.eq_symm hba)
  refine (hle.and ((hperm.pairwise_iff hsym).mpr hne)).imp ?_
  rintro a b ⟨hab, hnames⟩
  rw [← ListedPair.compareNames_eq_lt_iff]
  cases horder : a.compareNames b <;> simp_all

end TagBase
