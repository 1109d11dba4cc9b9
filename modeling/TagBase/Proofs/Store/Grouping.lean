import TagBase.Proofs.Fact.Grouping
import TagBase.Proofs.Store.Lookup

namespace TagBase

/-- Groups part facts by their files: there is one group for each file that occurs and none for any
other, in ascending order, and in each stand the facts of its file as they came. -/
structure PartsByFile (groups : List FileFacts) (facts : List Fact) : Prop where
  ascending : groups.Pairwise fun a b => a.file.num < b.file.num
  exists_group_iff : ∀ file,
    (∃ group ∈ groups, group.file = file) ↔ ∃ fact ∈ facts, fact.file = file
  facts_ne_nil : ∀ group ∈ groups, group.facts ≠ []
  facts_eq : ∀ group ∈ groups, group.facts = facts.filter fun fact => fact.file = group.file

theorem mem_groupByFile_iff {facts : List Fact} {group : FileFacts} :
    group ∈ groupByFile facts ↔
      (∃ fact ∈ facts, fact.file = group.file) ∧
        group.facts = facts.filter fun fact => fact.file = group.file := by
  rw [groupByFile_eq, List.mem_map]
  constructor
  · rintro ⟨file, hfile, rfl⟩
    exact ⟨mem_filesOf_iff.mp hfile, rfl⟩
  · rintro ⟨hfile, hfacts⟩
    refine ⟨group.file, mem_filesOf_iff.mpr hfile, ?_⟩
    rw [groupOf, ← hfacts]

theorem partsByFile_groupByFile (facts : List Fact) : PartsByFile (groupByFile facts) facts where
  ascending := by
    rw [groupByFile_eq, List.pairwise_map]
    exact (filesOf facts).ascending.imp compareOfLessAndEq_eq_lt.mp
  exists_group_iff file := by
    constructor
    · rintro ⟨group, hgroup, rfl⟩
      exact (mem_groupByFile_iff.mp hgroup).1
    · intro hfile
      exact ⟨groupOf facts file, mem_groupByFile_iff.mpr ⟨hfile, rfl⟩, rfl⟩
  facts_ne_nil group hgroup := by
    obtain ⟨⟨fact, hfact, hfile⟩, hfacts⟩ := mem_groupByFile_iff.mp hgroup
    rw [hfacts]
    exact List.ne_nil_of_mem (List.mem_filter.mpr ⟨hfact, decide_eq_true hfile⟩)
  facts_eq _ hgroup := (mem_groupByFile_iff.mp hgroup).2

/-- Grouping parts any facts by their files. Grouping all facts of a store makes, for each file that
has facts, the group of what looking up that file finds, and no other group. -/
theorem groupByFile_parts (facts : List Fact) (store : Store) :
    PartsByFile (groupByFile facts) facts ∧
      ∀ group, group ∈ groupByFile (store.find .all) ↔
        (∃ fact ∈ store.facts, fact.file = group.file) ∧
          group.facts = store.find (.ofFile group.file) := by
  refine ⟨partsByFile_groupByFile facts, fun group => ?_⟩
  rw [mem_groupByFile_iff, Store.find_all, Store.find_ofFile]
  rfl

end TagBase
