import Mathlib.Data.List.Induction
import TagBase.Fact.Grouping
import TagBase.OrderedSet

namespace TagBase

def filesOf (facts : List Fact) : OrderedSet FileId := .ofList (facts.map Fact.file)

def groupOf (facts : List Fact) (file : FileId) : FileFacts :=
  ⟨file, facts.filter fun fact => fact.file = file⟩

theorem mem_filesOf_iff {facts : List Fact} {file : FileId} :
    file ∈ filesOf facts ↔ ∃ fact ∈ facts, fact.file = file := by
  simp [filesOf]

theorem filesOf_append (facts : List Fact) (fact : Fact) :
    filesOf (facts ++ [fact]) = (filesOf facts).insert fact.file := by
  apply OrderedSet.ext_mem
  intro file
  rw [OrderedSet.mem_insert, mem_filesOf_iff, mem_filesOf_iff]
  simp only [List.mem_append, List.mem_singleton, or_and_right, exists_or, exists_eq_left]
  rw [or_comm, eq_comm]

theorem groupOf_append_self (facts : List Fact) (fact : Fact) :
    groupOf (facts ++ [fact]) fact.file =
      { groupOf facts fact.file with facts := (groupOf facts fact.file).facts ++ [fact] } := by
  simp [groupOf]

theorem groupOf_append_of_ne {facts : List Fact} {fact : Fact} {file : FileId}
    (h : fact.file ≠ file) : groupOf (facts ++ [fact]) file = groupOf facts file := by
  simp [groupOf, h]

theorem groupOf_of_not_mem {facts : List Fact} {file : FileId} (h : file ∉ filesOf facts) :
    groupOf facts file = ⟨file, []⟩ := by
  rw [mem_filesOf_iff] at h
  simpa [groupOf] using h

theorem map_groupOf_append_of_not_mem {facts : List Fact} {fact : Fact} {files : List FileId}
    (h : fact.file ∉ files) :
    files.map (groupOf (facts ++ [fact])) = files.map (groupOf facts) := by
  apply List.map_congr_left
  intro file hfile
  apply groupOf_append_of_ne
  rintro rfl
  exact h hfile

theorem addToGroup_map_groupOf {facts : List Fact} {fact : Fact} {files : List FileId}
    (hfiles : files.Pairwise fun a b => compare a b = .lt)
    (hnew : fact.file ∉ files → groupOf facts fact.file = ⟨fact.file, []⟩) :
    addToGroup fact (files.map (groupOf facts)) =
      (placeAscending fact.file files).map (groupOf (facts ++ [fact])) := by
  induction files with
  | nil => simp [addToGroup, placeAscending, placeBy, groupOf_append_self, hnew]
  | cons first rest ih =>
      obtain ⟨hfirst, hrest⟩ := List.pairwise_cons.mp hfiles
      rw [List.map_cons, addToGroup, placeAscending, placeBy,
        show (groupOf facts first).file = first from rfl]
      cases horder : compare fact.file first with
      | lt =>
          have hmem : fact.file ∉ first :: rest := by
            rw [List.mem_cons]
            rintro (heq | hmem)
            · simp [heq] at horder
            · simpa using Std.TransCmp.lt_trans horder (hfirst _ hmem)
          change _ = (fact.file :: first :: rest).map _
          rw [List.map_cons, map_groupOf_append_of_not_mem hmem, groupOf_append_self, hnew hmem]
          rfl
      | eq =>
          obtain rfl : fact.file = first := Std.LawfulEqOrd.compare_eq_iff_eq.mp horder
          have hmem : fact.file ∉ rest := by
            intro hmem
            simpa using hfirst _ hmem
          change _ = (fact.file :: rest).map _
          rw [List.map_cons, map_groupOf_append_of_not_mem hmem, groupOf_append_self]
          rfl
      | gt =>
          have hne : fact.file ≠ first := by
            rintro rfl
            simp at horder
          change _ = (first :: placeAscending fact.file rest).map _
          rw [List.map_cons, groupOf_append_of_ne hne, ← ih hrest]
          intro hmem
          exact hnew (by simp [hne, hmem])

theorem groupByFile_eq (facts : List Fact) :
    groupByFile facts = (filesOf facts).toList.map (groupOf facts) := by
  induction facts using List.reverseRecOn with
  | nil => rfl
  | append_singleton facts fact ih =>
      have hstep : groupByFile (facts ++ [fact]) = addToGroup fact (groupByFile facts) := by
        simp [groupByFile]
      rw [hstep, ih, addToGroup_map_groupOf (filesOf facts).ascending groupOf_of_not_mem,
        filesOf_append]
      rfl

end TagBase
