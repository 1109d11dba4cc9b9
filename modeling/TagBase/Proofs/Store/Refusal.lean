import TagBase.Proofs.Store.Facts
import TagBase.Proofs.Store.Names

namespace TagBase

namespace Store

/-- A change fails exactly under a condition, and a failure leaves no trace. -/
structure RefusedIff {α : Type} (change : Change α) (store : Store) (condition : Prop) : Prop where
  fails_iff : (∃ error, (change.run store).1 = .error error) ↔ condition
  unchanged : ∀ error, (change.run store).1 = .error error → (change.run store).2 = store

section

variable {α : Type} {change : Change α} {store : Store} {condition : Prop}

theorem RefusedIff.of_error {error : Error} (hcondition : condition)
    (hrun : change.run store = (.error error, store)) : RefusedIff change store condition := by
  constructor
  · exact ⟨fun _ => hcondition, fun _ => ⟨error, by rw [hrun]⟩⟩
  · intro _ _
    rw [hrun]

theorem RefusedIff.of_ok {a : α} {left : Store} (hcondition : ¬ condition)
    (hrun : change.run store = (.ok a, left)) : RefusedIff change store condition := by
  constructor
  · refine ⟨?_, fun h => absurd h hcondition⟩
    rintro ⟨error, herror⟩
    rw [hrun] at herror
    contradiction
  · intro error herror
    rw [hrun] at herror
    contradiction

end

theorem refusedIff_create {kind : Kind} (part : Catalog.Part kind) {store : Store}
    (h : (part.registry store.catalog).Sound) (name : String) :
    RefusedIff (create part name) store (name = "") := by
  by_cases hname : name = ""
  · exact .of_error hname (by rw [run_create, if_pos hname])
  · have hrun := run_create part name store
    rw [if_neg hname] at hrun
    cases hid : (part.registry store.catalog).idOf? name with
    | none =>
        rw [hid] at hrun
        exact .of_ok hname hrun
    | some id =>
        have hget := (h.idOf?_eq_some_iff name id).mp hid
        rw [hid] at hrun
        simp only [hget] at hrun
        exact .of_ok hname hrun

theorem refusedIff_addRule (rule : Rule) (store : Store) :
    RefusedIff (addRule rule) store
      (¬ (store.catalog.Knows rule.source ∧ store.catalog.Knows rule.implied)) := by
  rcases run_addRule_cases rule store with ⟨hsource, himplied, hrun⟩ | ⟨hunknown, fault, hrun⟩
  · exact .of_ok (not_not_intro ⟨hsource, himplied⟩) hrun
  · exact .of_error hunknown hrun

theorem refusedIff_insertFact (fact : Fact) (store : Store) :
    RefusedIff (insertFact fact) store (¬ store.catalog.Knows fact.pair) := by
  rcases run_insertFact_cases fact store with ⟨hknown, hrun⟩ | ⟨hunknown, fault, hrun⟩
  · exact .of_ok (not_not_intro hknown) hrun
  · exact .of_error hunknown hrun

theorem run_deleteFact_of_not_mem {fact : Fact} {store : Store} (h : fact ∉ store.facts) :
    (deleteFact fact).run store = (.error (.noSuchFact fact), store) := by
  rw [run_deleteFact, find_ofFact_eq_nil_iff.mpr h]
  rfl

theorem refusedIff_deleteFact (fact : Fact) (store : Store) :
    RefusedIff (deleteFact fact) store (fact ∉ store.facts) := by
  by_cases hfact : fact ∈ store.facts
  · exact .of_ok (not_not_intro hfact) (run_deleteFact_of_mem hfact)
  · exact .of_error hfact (run_deleteFact_of_not_mem hfact)

theorem run_insertFacts_of_unknown {fact : Fact} {store : Store}
    (h : ¬ store.catalog.Knows fact.pair) (rest : List Fact) :
    ∃ error, (insertFacts (fact :: rest)).run store = (.error error, store) := by
  rcases run_insertFact_cases fact store with ⟨hknown, -⟩ | ⟨-, fault, hrun⟩
  · exact absurd hknown h
  · refine ⟨.input fault, ?_⟩
    simp only [insertFacts, run_bind, hrun]

theorem Grounded.knows_retagged_iff {store : Store} (h : store.Grounded) {fact : Fact}
    (hfact : fact ∈ store.facts) {dest : TagId} :
    store.catalog.Knows { fact with tag := dest }.pair ↔
      store.catalog.tags.contains dest = true := by
  have hvalues := (h.knows_fact fact hfact).2
  rw [fact.pair_value?] at hvalues
  rw [Catalog.Knows, Fact.pair_tag, Fact.pair_value?]
  exact ⟨And.left, fun hdest => ⟨hdest, hvalues⟩⟩

theorem refusedIff_copyFacts {store : Store} (h : store.Grounded) (source dest : TagId) :
    RefusedIff (copyFacts source dest) store
      ((∃ fact ∈ store.facts, fact.tag = source) ∧ store.catalog.tags.contains dest = false) := by
  have hrun := run_copyFacts source dest store
  cases hdest : store.catalog.tags.contains dest with
  | true =>
      have hknown : ∀ fact ∈ (store.find (.ofTag source)).map fun fact => { fact with tag := dest },
          store.catalog.Knows fact.pair := by
        intro copied hcopied
        obtain ⟨fact, hfact, rfl⟩ := List.mem_map.mp hcopied
        exact (h.knows_retagged_iff (mem_find_ofTag_iff.mp hfact).1).mpr hdest
      rcases run_insertFacts_cases _ store with ⟨-, count, hcopied, -⟩ | ⟨hunknown, -⟩
      · exact .of_ok (by simp) (hrun.trans hcopied)
      · exact absurd hknown hunknown
  | false =>
      cases hfind : store.find (.ofTag source) with
      | nil =>
          have hnone : ¬ ∃ fact ∈ store.facts, fact.tag = source := by
            rintro ⟨fact, hfact⟩
            have hmem := mem_find_ofTag_iff.mpr hfact
            rw [hfind] at hmem
            contradiction
          rw [hfind] at hrun
          exact .of_ok (fun hcondition => hnone hcondition.1) hrun
      | cons fact rest =>
          have hfact : fact ∈ store.facts ∧ fact.tag = source := by
            rw [← mem_find_ofTag_iff, hfind]
            exact List.mem_cons_self
          have hunknown : ¬ store.catalog.Knows { fact with tag := dest }.pair := by
            rw [h.knows_retagged_iff hfact.1, hdest]
            exact Bool.false_ne_true
          rw [hfind, List.map_cons] at hrun
          obtain ⟨error, hcopied⟩ := run_insertFacts_of_unknown hunknown
            (rest.map fun fact => { fact with tag := dest })
          exact .of_error ⟨⟨fact, hfact⟩, rfl⟩ (hrun.trans hcopied)

open Operation (FewNames)

/-- In a history that asks for fewer names than there are numbers, every refusal has its cause in
the store and leaves the store as it was. -/
theorem refusedIff_after {operations : List Operation} (h : FewNames operations) :
    let store := empty.after operations
    (∀ name, RefusedIff (createTag name) store (name = "") ∧
      RefusedIff (createValue name) store (name = "")) ∧
    (∀ rule, RefusedIff (addRule rule) store
      (¬ (store.catalog.Knows rule.source ∧ store.catalog.Knows rule.implied))) ∧
    (∀ fact, RefusedIff (insertFact fact) store (¬ store.catalog.Knows fact.pair)) ∧
    (∀ fact, RefusedIff (deleteFact fact) store (fact ∉ store.facts) ∧
      ∀ error, ((deleteFact fact).run store).1 = .error error → error = .noSuchFact fact) ∧
    ∀ source dest, RefusedIff (copyFacts source dest) store
      ((∃ fact ∈ store.facts, fact.tag = source) ∧
        store.catalog.tags.contains dest = false) := by
  intro store
  have hsound : store.Sound := sound_after h
  refine ⟨?_, (refusedIff_addRule · store), (refusedIff_insertFact · store), ?_,
    refusedIff_copyFacts hsound.toGrounded⟩
  · intro name
    exact ⟨refusedIff_create .tags hsound.tags name, refusedIff_create .values hsound.values name⟩
  · intro fact
    refine ⟨refusedIff_deleteFact fact store, ?_⟩
    intro error herror
    have hfact := (refusedIff_deleteFact fact store).fails_iff.mp ⟨error, herror⟩
    rw [run_deleteFact_of_not_mem hfact] at herror
    cases herror
    rfl

theorem refused_copy_os :
    let operations : List Operation := [.createTag "os", .createTag "", .createValue "linux",
      .insertFact ⟨⟨7⟩, ⟨1⟩, some ⟨1⟩⟩, .insertFact ⟨⟨8⟩, ⟨1⟩, none⟩]
    let store := empty.after operations
    FewNames operations ∧
      (∃ error, ((copyFacts ⟨1⟩ ⟨2⟩).run store).1 = .error error) ∧
      ((copyFacts ⟨1⟩ ⟨2⟩).run store).2 = store := by
  intro operations store
  have hfew : FewNames operations := by
    intro kind
    cases kind <;> decide +kernel
  have hcondition : (∃ fact ∈ store.facts, fact.tag = ⟨1⟩) ∧
      store.catalog.tags.contains ⟨2⟩ = false :=
    ⟨⟨⟨⟨7⟩, ⟨1⟩, some ⟨1⟩⟩, by decide +kernel, rfl⟩, by decide +kernel⟩
  obtain ⟨-, -, -, -, hcopy⟩ := refusedIff_after hfew
  obtain ⟨error, herror⟩ := (hcopy ⟨1⟩ ⟨2⟩).fails_iff.mpr hcondition
  exact ⟨hfew, ⟨error, herror⟩, (hcopy ⟨1⟩ ⟨2⟩).unchanged error herror⟩

end Store

end TagBase
