import TagBase.Store

namespace TagBase

namespace Fact

theorem compare_eq_then (a b : Fact) :
    compare a b =
      (compare a.file b.file).then ((compare a.tag b.tag).then (compare a.value b.value)) := rfl

def ValueBefore : Option ValueId → Option ValueId → Prop
  | none, some _ => True
  | some value, some other => value.num < other.num
  | _, none => False

/-- A fact stands before another one: the number of its file is smaller, or the files are the same
and so on with the tags and the values. -/
def Before (a b : Fact) : Prop :=
  a.file.num < b.file.num ∨
    a.file = b.file ∧ (a.tag.num < b.tag.num ∨ a.tag = b.tag ∧ ValueBefore a.value b.value)

theorem compare_value_eq_lt_iff {a b : Option ValueId} : compare a b = .lt ↔ ValueBefore a b := by
  cases a with
  | none => cases b <;> simp [ValueBefore, compare]
  | some value =>
      cases b with
      | none => simp [ValueBefore, compare]
      | some other => exact compareOfLessAndEq_eq_lt

theorem compare_eq_lt_iff_before {a b : Fact} : compare a b = .lt ↔ a.Before b := by
  rw [compare_eq_then, Ordering.then_eq_lt, Ordering.then_eq_lt, compare_value_eq_lt_iff,
    Std.LawfulEqOrd.compare_eq_iff_eq, Std.LawfulEqOrd.compare_eq_iff_eq]
  exact or_congr compareOfLessAndEq_eq_lt
    (and_congr_right fun _ => or_congr compareOfLessAndEq_eq_lt .rfl)

theorem file_isLE_of_lt {a b : Fact} (h : compare a b = .lt) : (compare a.file b.file).isLE := by
  rw [compare_eq_then, Ordering.then_eq_lt] at h
  rcases h with h | ⟨h, -⟩ <;> simp [h]

theorem compare_tag_zero_ne_lt (tag : TagId) : compare tag ⟨0⟩ ≠ .lt := by
  intro h
  have hlt : tag.num < 0 := compareOfLessAndEq_eq_lt.mp h
  exact UInt32.not_lt_zero hlt

theorem compare_least_eq_lt_iff {fact : Fact} {file : FileId} :
    compare fact ⟨file, ⟨0⟩, none⟩ = .lt ↔ compare fact.file file = .lt := by
  rw [compare_eq_then, Ordering.then_eq_lt, Ordering.then_eq_lt]
  constructor
  · rintro (h | ⟨-, h | ⟨-, h⟩⟩)
    · exact h
    · exact absurd h (compare_tag_zero_ne_lt fact.tag)
    · cases hvalue : fact.value <;> simp [hvalue, compare] at h
  · exact .inl

end Fact

theorem takeWhile_file_eq_filter {file : FileId} {facts : List Fact}
    (hfacts : facts.Pairwise fun a b => compare a b = .lt)
    (hfile : ∀ fact ∈ facts, (compare file fact.file).isLE) :
    facts.takeWhile (fun fact => fact.file == file) =
      facts.filter fun fact => fact.file == file := by
  induction facts with
  | nil => rfl
  | cons first rest ih =>
      obtain ⟨hfirst, hrest⟩ := List.pairwise_cons.mp hfacts
      by_cases heq : first.file = file
      · rw [List.takeWhile_cons_of_pos (by simpa using heq),
          List.filter_cons_of_pos (by simpa using heq),
          ih hrest fun fact hfact => hfile fact (List.mem_cons_of_mem _ hfact)]
      · rw [List.takeWhile_cons_of_neg (by simpa using heq), eq_comm, List.filter_eq_nil_iff]
        have hlt : compare file first.file = .lt := by
          have hle := hfile first (by simp)
          cases hcompare : compare file first.file with
          | lt => rfl
          | eq => exact absurd (Std.LawfulEqOrd.compare_eq_iff_eq.mp hcompare).symm heq
          | gt => simp [hcompare] at hle
        intro fact hfact
        rw [beq_iff_eq]
        rintro rfl
        rcases List.mem_cons.mp hfact with rfl | hfact
        · simp at hlt
        · simpa using Std.TransCmp.lt_of_lt_of_isLE hlt (Fact.file_isLE_of_lt (hfirst fact hfact))

/-- The stretch that begins where the least fact of a file would stand holds just its facts. -/
theorem takeWhile_dropWhile_eq_filter (file : FileId) {facts : List Fact}
    (hfacts : facts.Pairwise fun a b => compare a b = .lt) :
    (facts.dropWhile fun fact => compare fact ⟨file, ⟨0⟩, none⟩ == .lt).takeWhile
        (fun fact => fact.file == file) =
      facts.filter fun fact => fact.file == file := by
  induction facts with
  | nil => rfl
  | cons first rest ih =>
      obtain ⟨hfirst, hrest⟩ := List.pairwise_cons.mp hfacts
      by_cases hlt : compare first.file file = .lt
      · have hne : first.file ≠ file := by
          rintro rfl
          simp at hlt
        rw [List.dropWhile_cons_of_pos (by simpa [Fact.compare_least_eq_lt_iff] using hlt),
          List.filter_cons_of_neg (by simpa using hne), ih hrest]
      · rw [List.dropWhile_cons_of_neg (by simpa [Fact.compare_least_eq_lt_iff] using hlt)]
        apply takeWhile_file_eq_filter hfacts
        have hle : (compare file first.file).isLE := by
          rw [← Std.OrientedCmp.isGE_iff_isLE]
          cases hcompare : compare first.file file <;> simp_all
        intro fact hfact
        rcases List.mem_cons.mp hfact with rfl | hfact
        · exact hle
        · exact Std.TransCmp.isLE_trans hle (Fact.file_isLE_of_lt (hfirst fact hfact))

namespace Store

theorem find_eq_filter (store : Store) (filter : Filter) :
    store.find filter = store.facts.toList.filter filter.accepts := by
  rw [find]
  split
  · rfl
  · rename_i file hfile
    simp only [takeWhile_dropWhile_eq_filter file store.facts.ascending, List.filter_filter]
    apply List.filter_congr
    intro fact _
    by_cases heq : fact.file = file
    · simp [heq]
    · simp [Filter.accepts, hfile, heq, Ne.symm heq]

theorem mem_find_iff {store : Store} {filter : Filter} {fact : Fact} :
    fact ∈ store.find filter ↔ fact ∈ store.facts ∧ filter.accepts fact = true := by
  rw [find_eq_filter, List.mem_filter, OrderedSet.mem_toList]

theorem pairwise_before_find (store : Store) (filter : Filter) :
    (store.find filter).Pairwise Fact.Before := by
  rw [find_eq_filter]
  exact (store.facts.ascending.imp Fact.compare_eq_lt_iff_before.mp).filter filter.accepts

theorem find_ofFact_eq_nil_iff {fact : Fact} {store : Store} :
    store.find (.ofFact fact) = [] ↔ fact ∉ store.facts := by
  rw [List.eq_nil_iff_forall_not_mem]
  simp only [mem_find_iff, Filter.accepts_ofFact]
  constructor
  · exact fun h hfact => h fact ⟨hfact, rfl⟩
  · rintro h _ ⟨hfact, rfl⟩
    exact h hfact

theorem contains_iff {store : Store} {fact : Fact} :
    store.contains fact = true ↔ fact ∈ store.facts := by
  rw [contains, decide_eq_true_eq, count, List.length_pos_iff, Ne, find_ofFact_eq_nil_iff,
    Decidable.not_not]

theorem find_all (store : Store) : store.find .all = store.facts.toList := by
  rw [find_eq_filter, List.filter_eq_self]
  simp

theorem find_ofFile (store : Store) (file : FileId) :
    store.find (.ofFile file) = store.facts.toList.filter fun fact => fact.file = file := by
  rw [find_eq_filter]
  apply List.filter_congr
  intro fact _
  apply Bool.eq_iff_iff.mpr
  simp [Filter.accepts, Filter.ofFile, Filter.all, eq_comm (a := file)]

theorem mem_find_ofTag_iff {store : Store} {tag : TagId} {fact : Fact} :
    fact ∈ store.find (.ofTag tag) ↔ fact ∈ store.facts ∧ fact.tag = tag := by
  rw [mem_find_iff]
  simp [Filter.accepts, Filter.ofTag, Filter.all, eq_comm (a := tag)]

/-- A look-up finds what a scan of all facts finds: the accepted facts, each of them once and in
their order. They are counted by it, and a fact is stored if it finds the fact itself. -/
theorem find_eq_scan (store : Store) (filter : Filter) :
    store.find filter = store.facts.toList.filter filter.accepts ∧
      (∀ fact, fact ∈ store.find filter ↔ fact ∈ store.facts ∧ filter.accepts fact = true) ∧
      (store.find filter).Nodup ∧
      (store.find filter).Pairwise Fact.Before ∧
      store.count filter = (store.find filter).length ∧
      ∀ fact, store.contains fact = true ↔ fact ∈ store.facts := by
  refine ⟨find_eq_filter store filter, fun _ => mem_find_iff, ?_, pairwise_before_find store filter,
    rfl, fun _ => contains_iff⟩
  rw [find_eq_filter]
  exact store.facts.nodup_toList.filter filter.accepts

end Store

end TagBase
