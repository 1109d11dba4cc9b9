import TagBase.Proofs.Store.Facts

namespace TagBase

namespace Store

variable {store : Store} {source dest : TagId}

def copies (store : Store) (source dest : TagId) : List Fact :=
  (store.find (.ofTag source)).map fun fact => { fact with tag := dest }

theorem mem_copies_iff {fact : Fact} :
    fact ∈ store.copies source dest ↔
      fact.tag = dest ∧ { fact with tag := source } ∈ store.facts := by
  rw [copies, List.mem_map]
  constructor
  · rintro ⟨other, hother, rfl⟩
    obtain ⟨hstored, rfl⟩ := mem_find_ofTag_iff.mp hother
    exact ⟨rfl, hstored⟩
  · rintro ⟨rfl, hstored⟩
    exact ⟨_, mem_find_ofTag_iff.mpr ⟨hstored, rfl⟩, rfl⟩

theorem run_copyFacts_of_ok {count : Nat} (h : ((copyFacts source dest).run store).1 = .ok count) :
    (∀ fact ∈ store.copies source dest, store.catalog.Knows fact.pair) ∧
      (copyFacts source dest).run store =
        (.ok count, { store with facts := store.facts.insertAll (store.copies source dest) }) ∧
      (store.facts.insertAll (store.copies source dest)).size = store.facts.size + count := by
  have hcopy : (copyFacts source dest).run store =
      (insertFacts (store.copies source dest)).run store := run_copyFacts source dest store
  rcases run_insertFacts_cases (store.copies source dest) store with
    ⟨hknown, added, hrun, hsize⟩ | ⟨-, fault, left, hrun⟩
  · obtain rfl : added = count := by
      rw [hcopy, hrun] at h
      exact Except.ok.inj h
    exact ⟨hknown, hcopy.trans hrun, hsize⟩
  · rw [hcopy, hrun] at h
    cases h

theorem run_copyFacts_of_copied
    (hknown : ∀ fact ∈ store.copies source dest, store.catalog.Knows fact.pair)
    (hcopied : ∀ fact ∈ store.copies source dest, fact ∈ store.facts) :
    (copyFacts source dest).run store = (.ok 0, store) := by
  rw [run_copyFacts, ← copies]
  rcases run_insertFacts_cases (store.copies source dest) store with
    ⟨-, count, hrun, hsize⟩ | ⟨hunknown, -⟩
  · rw [OrderedSet.insertAll_eq_self hcopied] at hrun hsize
    obtain rfl : count = 0 := Nat.left_eq_add.mp hsize
    exact hrun
  · exact absurd hknown hunknown

theorem mem_copies_insertAll_iff {facts : OrderedSet Fact}
    (hfacts : facts = store.facts.insertAll (store.copies source dest)) {fact : Fact} :
    fact ∈ copies { store with facts } source dest ↔ fact ∈ store.copies source dest := by
  rw [mem_copies_iff, mem_copies_iff, hfacts, OrderedSet.mem_insertAll, mem_copies_iff]
  refine and_congr_right fun _ => ⟨?_, .inr⟩
  rintro (⟨-, hstored⟩ | hstored) <;> exact hstored

/-- Where copying a tag answers, the facts afterwards are those before and the copies of those that
carry the tag. The answer is the number of facts that are new, and copying the tag again adds
none. -/
theorem facts_copied_exactly {count : Nat} (h : ((copyFacts source dest).run store).1 = .ok count) :
    let left := store.after [.copyFacts source dest]
    ChangesFacts (copyFacts source dest) store count
        (fun fact => fact ∈ store.facts ∨
          fact.tag = dest ∧ { fact with tag := source } ∈ store.facts) ∧
      left.facts.size = store.facts.size + count ∧
      (copyFacts source dest).run left = (.ok 0, left) := by
  intro left
  obtain ⟨hknown, hrun, hsize⟩ := run_copyFacts_of_ok h
  have hleft : left = { store with facts := store.facts.insertAll (store.copies source dest) } :=
    congrArg Prod.snd hrun
  refine ⟨.of_run hrun ?_, ?_, ?_⟩
  · intro fact
    rw [OrderedSet.mem_insertAll, mem_copies_iff, or_comm]
  · rw [hleft, hsize]
  · rw [hleft]
    apply run_copyFacts_of_copied
    · intro fact hfact
      exact hknown fact ((mem_copies_insertAll_iff rfl).mp hfact)
    · intro fact hfact
      exact OrderedSet.mem_insertAll.mpr (.inl ((mem_copies_insertAll_iff rfl).mp hfact))

theorem facts_copied_exactly_track :
    let store := empty.after [.createTag "song", .createTag "track", .createValue "1",
      .insertFact ⟨⟨1⟩, ⟨1⟩, some ⟨1⟩⟩, .insertFact ⟨⟨2⟩, ⟨1⟩, none⟩, .insertFact ⟨⟨2⟩, ⟨2⟩, none⟩]
    let left := store.after [.copyFacts ⟨1⟩ ⟨2⟩]
    ((copyFacts ⟨1⟩ ⟨2⟩).run store).1 = .ok 1 ∧
      left.catalog = store.catalog ∧ left.rules = store.rules ∧
      (∀ fact, fact ∈ left.facts ↔
        fact ∈ store.facts ∨ fact.tag = ⟨2⟩ ∧ { fact with tag := ⟨1⟩ } ∈ store.facts) ∧
      left.facts.size = 4 ∧ (copyFacts ⟨1⟩ ⟨2⟩).run left = (.ok 0, left) := by
  intro store left
  have hcopy : ((copyFacts ⟨1⟩ ⟨2⟩).run store).1 = .ok 1 := by decide +kernel
  obtain ⟨hchange, hsize, hagain⟩ := facts_copied_exactly hcopy
  have hthree : store.facts.size = 3 := by decide +kernel
  rw [hthree] at hsize
  exact ⟨hcopy, hchange.catalog_eq, hchange.rules_eq, hchange.mem_facts_iff, hsize, hagain⟩

end Store

end TagBase
