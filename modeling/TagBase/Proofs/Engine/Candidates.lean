import TagBase.Engine
import TagBase.Proofs.Fact.Grouping
import TagBase.Proofs.Matcher
import TagBase.Proofs.Store.History
import TagBase.Proofs.Store.Lookup

namespace TagBase

theorem filter_flatMap_file_of_not_mem {facts : List Fact} {file : FileId} {files : List FileId}
    (h : file ∉ files) :
    (files.flatMap fun other => facts.filter fun fact => fact.file = other).filter
        (fun fact => fact.file = file) = [] := by
  rw [List.filter_eq_nil_iff]
  intro fact hfact
  simp only [List.mem_flatMap, List.mem_filter, decide_eq_true_eq] at hfact ⊢
  obtain ⟨_, hother, -, rfl⟩ := hfact
  rintro rfl
  exact h hother

theorem filter_flatMap_file_of_mem {facts : List Fact} {file : FileId} {files : List FileId}
    (hfiles : files.Nodup) (hfile : file ∈ files) :
    (files.flatMap fun other => facts.filter fun fact => fact.file = other).filter
        (fun fact => fact.file = file) =
      facts.filter fun fact => fact.file = file := by
  induction files with
  | nil => simp at hfile
  | cons first rest ih =>
      obtain ⟨hfirst, hrest⟩ := List.nodup_cons.mp hfiles
      rw [List.flatMap_cons, List.filter_append, List.filter_filter]
      rcases List.mem_cons.mp hfile with rfl | hfile
      · rw [filter_flatMap_file_of_not_mem hfirst, List.append_nil]
        simp
      · have hne : first ≠ file := by
          rintro rfl
          exact hfirst hfile
        rw [ih hrest hfile, List.filter_eq_nil_iff.mpr, List.nil_append]
        intro fact _
        simp only [Bool.and_eq_true, decide_eq_true_eq]
        rintro ⟨rfl, heq⟩
        exact hne heq.symm

namespace Store

def groups (store : Store) : List FileFacts := groupByFile store.facts.toList

theorem groups_eq (store : Store) :
    store.groups = (filesOf store.facts.toList).toList.map (groupOf store.facts.toList) :=
  groupByFile_eq store.facts.toList

theorem groupByFile_flatMap_find (store : Store) {files : OrderedSet FileId}
    (hfiles : ∀ file ∈ files, file ∈ filesOf store.facts.toList) :
    groupByFile (files.toList.flatMap fun file => store.find (.ofFile file)) =
      files.toList.map (groupOf store.facts.toList) := by
  simp only [find_ofFile, groupByFile_eq]
  have hloaded : filesOf (files.toList.flatMap fun file =>
      store.facts.toList.filter fun fact => fact.file = file) = files := by
    apply OrderedSet.ext_mem
    intro file
    simp only [mem_filesOf_iff, List.mem_flatMap, List.mem_filter, decide_eq_true_eq]
    constructor
    · rintro ⟨fact, ⟨_, hfile, -, rfl⟩, rfl⟩
      exact hfile
    · intro hfile
      obtain ⟨fact, hfact, rfl⟩ := mem_filesOf_iff.mp (hfiles file hfile)
      exact ⟨fact, ⟨_, hfile, hfact, rfl⟩, rfl⟩
  rw [hloaded]
  apply List.map_congr_left
  intro file hfile
  rw [groupOf, groupOf, filter_flatMap_file_of_mem files.nodup_toList hfile]

theorem select_map_groupOf (matcher : Matcher) (facts : List Fact) (files : OrderedSet FileId) :
    matcher.select (files.toList.map (groupOf facts)) =
      (files.filter fun file => matcher.holds (groupOf facts file).facts).toList.map
        (groupOf facts) := by
  simp only [Matcher.select, List.filter_map, OrderedSet.filter]
  rfl

theorem mem_candidateFiles_iff {store : Store} {tags : OrderedSet TagId} {file : FileId} :
    file ∈ OrderedSet.ofList
        (tags.toList.flatMap fun tag => (store.find (.ofTag tag)).map Fact.file) ↔
      ∃ fact ∈ store.facts, fact.tag ∈ tags ∧ fact.file = file := by
  simp only [OrderedSet.mem_ofList, List.mem_flatMap, List.mem_map, mem_find_ofTag_iff,
    OrderedSet.mem_toList]
  constructor
  · rintro ⟨_, htag, fact, ⟨hfact, rfl⟩, hfile⟩
    exact ⟨fact, hfact, htag, hfile⟩
  · rintro ⟨fact, hfact, htag, hfile⟩
    exact ⟨_, htag, fact, ⟨hfact, rfl⟩, hfile⟩

/-- The prefilter drops no file that matches. -/
theorem select_candidates (store : Store) (settings : Settings) (matcher : Matcher) :
    matcher.select (store.candidates settings matcher) = matcher.select store.groups := by
  rw [candidates]
  split
  · rw [find_all, groups]
  · rename_i tags htags
    have hcandidate : matcher.candidateTags = some tags := by
      split at htags
      · exact htags
      · contradiction
    rw [groups_eq, groupByFile_flatMap_find, select_map_groupOf, select_map_groupOf]
    · congr 2
      apply OrderedSet.ext_mem
      intro file
      rw [OrderedSet.mem_filter, OrderedSet.mem_filter, mem_candidateFiles_iff, mem_filesOf_iff]
      refine and_congr_left fun hholds => ⟨?_, ?_⟩
      · rintro ⟨fact, hfact, -, hfile⟩
        exact ⟨fact, hfact, hfile⟩
      · intro _
        obtain ⟨fact, hfact, htag⟩ := Matcher.exists_tag_mem_candidateTags hholds hcandidate
        obtain ⟨hfact, hfile⟩ := List.mem_filter.mp hfact
        exact ⟨fact, hfact, htag, of_decide_eq_true hfile⟩
    · intro file hfile
      obtain ⟨fact, hfact, -, hfile⟩ := mem_candidateFiles_iff.mp hfile
      exact mem_filesOf_iff.mpr ⟨fact, hfact, hfile⟩

theorem selectWith_eq {shared : GroupFilter}
    (hshared : ∀ keep groups, shared keep groups = groups.filter keep) (threshold : UInt64)
    (matcher : Matcher) (groups : List FileFacts) :
    matcher.selectWith shared threshold groups = matcher.select groups := by
  rw [Matcher.selectWith]
  split
  · rw [hshared, Matcher.select]
  · rfl

theorem matchingGroups_eq {shared : GroupFilter}
    (hshared : ∀ keep groups, shared keep groups = groups.filter keep) (store : Store)
    (settings : Settings) (compiled : CompiledQuery) :
    store.matchingGroups shared settings compiled = compiled.matcher.select store.groups := by
  rw [matchingGroups, selectWith_eq hshared, select_candidates]

/-- A file carries a fact, and a matcher holds of its facts. -/
def Matches (store : Store) (matcher : Matcher) (file : FileId) : Prop :=
  (∃ fact ∈ store.facts, fact.file = file) ∧
    matcher.holds (store.facts.toList.filter fun fact => fact.file = file) = true

theorem matchingFiles_eq (shared : GroupFilter) (store : Store) (settings : Settings)
    (compiled : CompiledQuery) :
    store.matchingFiles shared settings compiled =
      .ofList ((store.matchingGroups shared settings compiled).map FileFacts.file) := rfl

section Matching

variable {shared : GroupFilter} (hshared : ∀ keep groups, shared keep groups = groups.filter keep)
  {store : Store} {settings : Settings} {compiled : CompiledQuery}

include hshared

theorem mem_matchingGroups_iff_matches {group : FileFacts} :
    group ∈ store.matchingGroups shared settings compiled ↔
      ∃ file, store.Matches compiled.matcher file ∧ groupOf store.facts.toList file = group := by
  rw [matchingGroups_eq hshared, groups_eq, select_map_groupOf, List.mem_map]
  refine exists_congr fun file => and_congr_left fun _ => ?_
  rw [OrderedSet.mem_toList, OrderedSet.mem_filter, mem_filesOf_iff]
  rfl

theorem mem_matchingFiles_iff_matches {file : FileId} :
    file ∈ store.matchingFiles shared settings compiled ↔ store.Matches compiled.matcher file := by
  rw [matchingFiles_eq, OrderedSet.mem_ofList, List.mem_map]
  simp only [mem_matchingGroups_iff_matches hshared]
  constructor
  · rintro ⟨_, ⟨file, hfile, rfl⟩, rfl⟩
    exact hfile
  · intro hfile
    exact ⟨_, ⟨file, hfile, rfl⟩, rfl⟩

end Matching

def filterHalves : GroupFilter := fun keep groups =>
  (groups.take (groups.length / 2)).filter keep ++ (groups.drop (groups.length / 2)).filter keep

theorem filterHalves_eq (keep : FileFacts → Bool) (groups : List FileFacts) :
    filterHalves keep groups = groups.filter keep := by
  rw [filterHalves, ← List.filter_append, List.take_append_drop]

/-- Neither the prefilter nor the sharing of work changes an answer: settings that agree on what a
listing shows give the same answers. -/
theorem runWith_congr_settings {shared : GroupFilter}
    (hshared : ∀ keep groups, shared keep groups = groups.filter keep) {settings other : Settings}
    (h : settings.listImplied = other.listImplied) (store : Store) (compiled : CompiledQuery)
    (projection : Projection) :
    store.runWith shared settings compiled projection =
      store.runWith shared other compiled projection := by
  cases projection with
  | files => simp only [runWith, matchingFiles_eq, matchingGroups_eq hshared]
  | pairs => simp only [runWith, matchingPairs, matchingGroups_eq hshared, h]

theorem runWith_filterHalves :
    let store := empty.after [.createTag "os", .createTag "size", .createValue "linux",
      .createValue "9", .insertFact ⟨⟨1⟩, ⟨1⟩, some ⟨2⟩⟩, .insertFact ⟨⟨1⟩, ⟨2⟩, none⟩,
      .insertFact ⟨⟨2⟩, ⟨1⟩, some ⟨1⟩⟩, .insertFact ⟨⟨3⟩, ⟨2⟩, some ⟨2⟩⟩]
    let compiled : CompiledQuery :=
      ⟨.both .always (.someFact (.outside (.ofList [.any ⟨1⟩]) (.ofList [.exact ⟨1⟩ ⟨1⟩]))), .empty⟩
    (∀ keep groups, filterHalves keep groups = groups.filter keep) ∧
      (⟨true, true, 0⟩ : Settings).listImplied = (⟨true, false, 4096⟩ : Settings).listImplied ∧
      store.runWith filterHalves ⟨true, true, 0⟩ compiled .files =
        store.runWith filterHalves ⟨true, false, 4096⟩ compiled .files ∧
      store.runWith filterHalves ⟨true, true, 0⟩ compiled .files =
        .ok (.files (.ofList [⟨1⟩])) :=
  ⟨filterHalves_eq, rfl, runWith_congr_settings filterHalves_eq rfl _ _ _, by decide +kernel⟩

end Store

end TagBase
