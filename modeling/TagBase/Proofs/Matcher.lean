import TagBase.Matcher
import TagBase.Proofs.Rule.Closure

namespace TagBase

theorem PairSet.mem_tags_iff {pairs : PairSet} {tag : TagId} :
    tag ∈ pairs.tags ↔ ∃ pair ∈ pairs, pair.tag = tag := by
  simp [tags, OrderedSet.mem_toList]

theorem PairSet.tag_mem_tags_of_covers {pairs : PairSet} {fact : Fact}
    (h : pairs.covers fact = true) : fact.tag ∈ pairs.tags := by
  obtain ⟨pair, hpair, hunder⟩ := covers_iff.mp h
  exact mem_tags_iff.mpr ⟨pair, hpair, hunder.1 ▸ fact.pair_tag⟩

namespace FactTest

def Mentions : FactTest → TagId → Prop
  | .within pairs, tag => ∃ pair ∈ pairs, pair.tag = tag
  | .taggedIn tags, tag => tag ∈ tags
  | .outside family _, tag => ∃ pair ∈ family, pair.tag = tag

theorem mem_candidateTags_iff {test : FactTest} {tag : TagId} :
    tag ∈ test.candidateTags ↔ test.Mentions tag := by
  cases test with
  | within pairs => exact PairSet.mem_tags_iff
  | taggedIn tags => exact .rfl
  | outside family excluded => exact PairSet.mem_tags_iff

theorem tag_mem_candidateTags {test : FactTest} {fact : Fact}
    (h : test.accepts fact = true) : fact.tag ∈ test.candidateTags := by
  cases test with
  | within pairs => exact PairSet.tag_mem_tags_of_covers h
  | taggedIn tags => exact of_decide_eq_true h
  | outside family excluded =>
      rw [accepts, Bool.and_eq_true] at h
      exact PairSet.tag_mem_tags_of_covers h.1

def width (test : FactTest) : Nat := test.candidateTags.size

/-- The test of the leaf that speaks of fewest tags, of several the leftmost: those before it speak
of more, and those behind it of no fewer. -/
def NarrowestIn (test : FactTest) (leaves : List Matcher) : Prop :=
  ∃ before after, leaves = before ++ .someFact test :: after ∧
    (∀ other, .someFact other ∈ before → test.width < other.width) ∧
    ∀ other, .someFact other ∈ after → test.width ≤ other.width

section Narrowest

variable {test : FactTest} {leaves more : List Matcher} (h : test.NarrowestIn leaves)

include h

theorem NarrowestIn.mem : .someFact test ∈ leaves := by
  obtain ⟨before, after, rfl, -⟩ := h
  simp

theorem NarrowestIn.width_le {other : FactTest} (hother : .someFact other ∈ leaves) :
    test.width ≤ other.width := by
  obtain ⟨before, after, rfl, hbefore, hafter⟩ := h
  simp only [List.mem_append, List.mem_cons, Matcher.someFact.injEq] at hother
  rcases hother with hother | rfl | hother
  · exact Nat.le_of_lt (hbefore other hother)
  · exact Nat.le_refl other.width
  · exact hafter other hother

theorem NarrowestIn.append (hmore : ∀ other, .someFact other ∈ more → test.width ≤ other.width) :
    test.NarrowestIn (leaves ++ more) := by
  obtain ⟨before, after, rfl, hbefore, hafter⟩ := h
  refine ⟨before, after ++ more, by simp, hbefore, ?_⟩
  intro other hother
  rcases List.mem_append.mp hother with hother | hother
  · exact hafter other hother
  · exact hmore other hother

theorem NarrowestIn.append_right
    (hmore : ∀ other, .someFact other ∈ more → test.width < other.width) :
    test.NarrowestIn (more ++ leaves) := by
  obtain ⟨before, after, rfl, hbefore, hafter⟩ := h
  refine ⟨more ++ before, after, by simp, ?_, hafter⟩
  intro other hother
  rcases List.mem_append.mp hother with hother | hother
  · exact hmore other hother
  · exact hbefore other hother

end Narrowest

end FactTest

namespace Matcher

def leaves : Matcher → List Matcher
  | .always => [.always]
  | .someFact test => [.someFact test]
  | .both left right => left.leaves ++ right.leaves

/-- What the leaves of a matcher offer to narrow the files down. -/
inductive Offers (leaves : List Matcher) : Option (OrderedSet TagId) → Prop
  | nothing (h : ∀ leaf ∈ leaves, leaf = .always) : Offers leaves none
  | tags {test : FactTest} (h : test.NarrowestIn leaves) : Offers leaves (some test.candidateTags)

theorem offers_candidateTags (matcher : Matcher) : Offers matcher.leaves matcher.candidateTags := by
  induction matcher with
  | always => exact .nothing fun _ => List.mem_singleton.mp
  | someFact test => exact .tags ⟨[], [], rfl, nofun, nofun⟩
  | both left right ihleft ihright =>
      rw [candidateTags, leaves]
      generalize left.candidateTags = lefts at ihleft
      generalize right.candidateTags = rights at ihright
      cases ihleft with
      | nothing hleft =>
          cases ihright with
          | nothing hright => exact .nothing (List.forall_mem_append.mpr ⟨hleft, hright⟩)
          | tags hright =>
              exact .tags (hright.append_right fun other hother => nomatch hleft _ hother)
      | @tags test hleft =>
          cases ihright with
          | nothing hright => exact .tags (hleft.append fun other hother => nomatch hright _ hother)
          | @tags other hright =>
              dsimp only
              split
              · rename_i hlt
                exact .tags (hright.append_right fun _ hmem =>
                  Nat.lt_of_lt_of_le hlt (hleft.width_le hmem))
              · rename_i hle
                exact .tags (hleft.append fun _ hmem =>
                  Nat.le_trans (Nat.le_of_not_lt hle) (hright.width_le hmem))

theorem candidateTags_eq_none_iff {matcher : Matcher} :
    matcher.candidateTags = none ↔ ∀ leaf ∈ matcher.leaves, leaf = .always := by
  have hoffers := offers_candidateTags matcher
  generalize matcher.candidateTags = offered at hoffers
  cases hoffers with
  | nothing h => exact iff_of_true rfl h
  | tags h => exact iff_of_false nofun fun hleaves => nomatch hleaves _ h.mem

theorem holds_nil_iff {matcher : Matcher} :
    matcher.holds [] = true ↔ matcher.candidateTags = none := by
  rw [candidateTags_eq_none_iff]
  induction matcher with
  | always => simp [holds, leaves]
  | someFact test => simp [holds, leaves]
  | both left right ihleft ihright =>
      rw [holds, Bool.and_eq_true, ihleft, ihright, leaves, List.forall_mem_append]

theorem exists_narrowestIn {matcher : Matcher} {tags : OrderedSet TagId}
    (h : matcher.candidateTags = some tags) :
    ∃ test : FactTest, test.NarrowestIn matcher.leaves ∧ test.candidateTags = tags := by
  have hoffers := offers_candidateTags matcher
  rw [h] at hoffers
  cases hoffers with
  | tags htest => exact ⟨_, htest, rfl⟩

theorem holds_of_mem_leaves {matcher leaf : Matcher} {facts : List Fact}
    (h : matcher.holds facts = true) (hleaf : leaf ∈ matcher.leaves) : leaf.holds facts = true := by
  induction matcher with
  | always => rwa [List.mem_singleton.mp hleaf]
  | someFact test => rwa [List.mem_singleton.mp hleaf]
  | both left right ihleft ihright =>
      rw [holds, Bool.and_eq_true] at h
      rcases List.mem_append.mp hleaf with hleaf | hleaf
      · exact ihleft h.1 hleaf
      · exact ihright h.2 hleaf

theorem exists_tag_mem_candidateTags {matcher : Matcher} {facts : List Fact}
    {tags : OrderedSet TagId} (hholds : matcher.holds facts = true)
    (htags : matcher.candidateTags = some tags) : ∃ fact ∈ facts, fact.tag ∈ tags := by
  obtain ⟨test, htest, rfl⟩ := exists_narrowestIn htags
  obtain ⟨fact, hfact, haccepts⟩ := List.any_eq_true.mp (holds_of_mem_leaves hholds htest.mem)
  exact ⟨fact, hfact, FactTest.tag_mem_candidateTags haccepts⟩

/-- There are no candidate tags exactly where every leaf holds of all files. Otherwise they are the
tags that one of the tests speaks of, the leftmost among those that speak of fewest, and facts that
satisfy the matcher carry one of them. -/
theorem candidateTags_narrowest (matcher : Matcher) :
    (matcher.candidateTags = none ↔ ∀ leaf ∈ matcher.leaves, leaf = .always) ∧
      ∀ tags, matcher.candidateTags = some tags →
        (∃ test : FactTest, test.NarrowestIn matcher.leaves ∧ test.candidateTags = tags ∧
          ∀ tag, tag ∈ tags ↔ test.Mentions tag) ∧
        ∀ facts, matcher.holds facts = true → ∃ fact ∈ facts, fact.tag ∈ tags := by
  refine ⟨candidateTags_eq_none_iff, ?_⟩
  intro tags htags
  refine ⟨?_, fun facts hholds => exists_tag_mem_candidateTags hholds htags⟩
  obtain ⟨test, htest, rfl⟩ := exists_narrowestIn htags
  exact ⟨test, htest, rfl, fun tag => FactTest.mem_candidateTags_iff⟩

theorem candidateTags_narrowest_tie :
    let family : PairSet := .ofList [.exact ⟨4⟩ ⟨1⟩, .exact ⟨4⟩ ⟨2⟩]
    let matcher : Matcher := .both (.both .always (.someFact (.taggedIn (.ofList [⟨1⟩, ⟨2⟩]))))
      (.both (.someFact (.outside family (.ofList [.exact ⟨4⟩ ⟨1⟩])))
        (.someFact (.within (.ofList [.any ⟨5⟩]))))
    let facts : List Fact := [⟨⟨7⟩, ⟨5⟩, none⟩, ⟨⟨7⟩, ⟨4⟩, some ⟨2⟩⟩, ⟨⟨7⟩, ⟨1⟩, some ⟨1⟩⟩]
    matcher.candidateTags = some (.ofList [⟨4⟩]) ∧
      (∃ test : FactTest, test.NarrowestIn matcher.leaves ∧ test.candidateTags = .ofList [⟨4⟩] ∧
        ∀ tag, tag ∈ OrderedSet.ofList [⟨4⟩] ↔ test.Mentions tag) ∧
      matcher.holds facts = true ∧ ∃ fact ∈ facts, fact.tag ∈ OrderedSet.ofList [⟨4⟩] := by
  intro family matcher facts
  have htags : matcher.candidateTags = some (.ofList [⟨4⟩]) := by decide +kernel
  have hholds : matcher.holds facts = true := by decide +kernel
  obtain ⟨htest, hfacts⟩ := (candidateTags_narrowest matcher).2 _ htags
  exact ⟨htags, htest, hholds, hfacts facts hholds⟩

end Matcher

end TagBase
