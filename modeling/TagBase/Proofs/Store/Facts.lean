import TagBase.Proofs.Store.History
import TagBase.Proofs.Store.Lookup

namespace TagBase

namespace OrderedSet

variable {α : Type} [Ord α] [Std.LawfulEqOrd α] {s : OrderedSet α} {a : α} {l : List α}

theorem mem_foldl_erase : a ∈ l.foldl erase s ↔ a ∈ s ∧ a ∉ l := by
  induction l generalizing s with
  | nil => simp
  | cons b l ih => rw [List.foldl_cons, ih, mem_erase, List.mem_cons, not_or, and_assoc]

variable [Std.TransOrd α]

theorem insert_eq_self (h : a ∈ s) : s.insert a = s := by
  apply ext_mem
  intro b
  rw [mem_insert]
  constructor
  · rintro (rfl | hb)
    · exact h
    · exact hb
  · exact .inr

theorem insertAll_eq_self (h : ∀ a ∈ l, a ∈ s) : s.insertAll l = s := by
  apply ext_mem
  intro b
  rw [mem_insertAll]
  exact ⟨fun hb => hb.elim (h b) id, .inr⟩

theorem erase_insert (h : a ∉ s) : (s.insert a).erase a = s := by
  apply ext_mem
  intro b
  rw [mem_erase, mem_insert]
  constructor
  · rintro ⟨rfl | hb, hne⟩
    · exact absurd rfl hne
    · exact hb
  · intro hb
    refine ⟨.inr hb, ?_⟩
    rintro rfl
    exact h hb

theorem size_insert [DecidableEq α] (s : OrderedSet α) (a : α) :
    (s.insert a).size = s.size + if a ∈ s then 0 else 1 := by
  split
  · rename_i h
    rw [insert_eq_self h, Nat.add_zero]
  · rename_i h
    have hnodup : (a :: s.toList).Nodup := List.nodup_cons.mpr ⟨h, s.nodup_toList⟩
    have hperm : (s.insert a).toList.Perm (a :: s.toList) := by
      rw [List.perm_ext_iff_of_nodup (nodup_toList _) hnodup]
      intro b
      rw [List.mem_cons]
      exact mem_insert
    exact hperm.length_eq

omit [Std.LawfulEqOrd α] in
theorem insertAll_cons (s : OrderedSet α) (a : α) (l : List α) :
    s.insertAll (a :: l) = (s.insert a).insertAll l := rfl

end OrderedSet

namespace Store

/-- A change answers and touches nothing but the facts, of which just those are stored afterwards
that `stored` holds of. -/
structure ChangesFacts {α : Type} (change : Change α) (store : Store) (answer : α)
    (stored : Fact → Prop) : Prop where
  answers : (change.run store).1 = .ok answer
  catalog_eq : (change.run store).2.catalog = store.catalog
  rules_eq : (change.run store).2.rules = store.rules
  mem_facts_iff : ∀ fact, fact ∈ (change.run store).2.facts ↔ stored fact

theorem ChangesFacts.of_run {α : Type} {change : Change α} {store : Store} {answer : α}
    {facts : OrderedSet Fact} {stored : Fact → Prop}
    (hrun : change.run store = (.ok answer, { store with facts }))
    (hfacts : ∀ fact, fact ∈ facts ↔ stored fact) : ChangesFacts change store answer stored := by
  constructor
  · rw [hrun]
  · rw [hrun]
  · rw [hrun]
  · rw [hrun]
    exact hfacts

theorem foldl_erase_find (store : Store) (filter : Filter) :
    (store.find filter).foldl .erase store.facts =
      store.facts.filter fun fact => !filter.accepts fact := by
  apply OrderedSet.ext_mem
  intro fact
  rw [OrderedSet.mem_foldl_erase, OrderedSet.mem_filter, mem_find_iff]
  cases filter.accepts fact <;> simp

theorem run_deleteFacts_eq (filter : Filter) (store : Store) :
    (deleteFacts filter).run store =
      (.ok (store.facts.toList.countP filter.accepts),
        { store with facts := store.facts.filter fun fact => !filter.accepts fact }) := by
  rw [run_deleteFacts, foldl_erase_find, find_eq_filter, List.countP_eq_length_filter]

theorem run_deleteFacts_of_none {filter : Filter} {store : Store}
    (h : ∀ fact ∈ store.facts, filter.accepts fact = false) :
    (deleteFacts filter).run store = (.ok 0, store) := by
  have hfind : store.find filter = [] := by
    rw [find_eq_filter, List.filter_eq_nil_iff]
    intro fact hfact
    simp [h fact hfact]
  rw [run_deleteFacts, hfind]
  rfl

theorem run_deleteFacts_again (filter : Filter) (store : Store) :
    (deleteFacts filter).run (store.after [.deleteFacts filter]) =
      (.ok 0, store.after [.deleteFacts filter]) := by
  have hleft : (store.after [.deleteFacts filter]).facts =
      store.facts.filter fun fact => !filter.accepts fact := foldl_erase_find store filter
  apply run_deleteFacts_of_none
  rw [hleft]
  intro fact hfact
  simpa using (OrderedSet.mem_filter.mp hfact).2

theorem run_deleteFact_of_mem {fact : Fact} {store : Store} (h : fact ∈ store.facts) :
    (deleteFact fact).run store = (.ok (), { store with facts := store.facts.erase fact }) := by
  have hfound : (store.find (.ofFact fact)).length ≠ 0 := by
    rw [Ne, List.length_eq_zero_iff, find_ofFact_eq_nil_iff]
    exact not_not_intro h
  have herase : (store.find (.ofFact fact)).foldl .erase store.facts = store.facts.erase fact := by
    apply OrderedSet.ext_mem
    intro other
    rw [OrderedSet.mem_foldl_erase, OrderedSet.mem_erase, mem_find_iff, Filter.accepts_ofFact]
    exact and_congr_right fun hother => by simp [hother]
  rw [run_deleteFact, if_neg hfound, herase]

theorem run_insertFact_of_known {fact : Fact} {store : Store}
    (h : store.catalog.Knows fact.pair) :
    (insertFact fact).run store =
      (.ok (decide (fact ∉ store.facts)), { store with facts := store.facts.insert fact }) := by
  rcases run_insertFact_cases fact store with ⟨-, hrun⟩ | ⟨hunknown, -⟩
  · exact hrun
  · exact absurd h hunknown

theorem run_insertFacts_cases (facts : List Fact) (store : Store) :
    (∀ fact ∈ facts, store.catalog.Knows fact.pair) ∧
        (∃ count,
          (insertFacts facts).run store =
              (.ok count, { store with facts := store.facts.insertAll facts }) ∧
            (store.facts.insertAll facts).size = store.facts.size + count) ∨
      ¬ (∀ fact ∈ facts, store.catalog.Knows fact.pair) ∧
        ∃ fault left, (insertFacts facts).run store = (.error (.input fault), left) := by
  induction facts generalizing store with
  | nil => exact .inl ⟨nofun, 0, rfl, rfl⟩
  | cons fact rest ih =>
      rw [List.forall_mem_cons]
      rcases run_insertFact_cases fact store with ⟨hfact, hrun⟩ | ⟨hfact, fault, hrun⟩
      · rcases ih { store with facts := store.facts.insert fact } with
          ⟨hrest, count, hothers, hsize⟩ | ⟨hrest, fault, left, hothers⟩
        · refine .inl ⟨⟨hfact, hrest⟩, (if fact ∈ store.facts then 0 else 1) + count, ?_, ?_⟩
          · simp only [insertFacts, run_bind, hrun, hothers, run_pure, decide_eq_true_eq, ite_not]
            rfl
          · rw [OrderedSet.insertAll_cons, hsize, OrderedSet.size_insert, Nat.add_assoc]
        · refine .inr ⟨fun h => hrest h.2, fault, left, ?_⟩
          simp only [insertFacts, run_bind, hrun, hothers]
      · refine .inr ⟨fun h => hfact h.1, fault, store, ?_⟩
        simp only [insertFacts, run_bind, hrun]

theorem run_deleteFact_after_insertFact {fact : Fact} {store : Store}
    (hknown : store.catalog.Knows fact.pair) (hnew : fact ∉ store.facts) :
    (deleteFact fact).run (store.after [.insertFact fact]) = (.ok (), store) := by
  have hleft : store.after [.insertFact fact] =
      { store with facts := store.facts.insert fact } :=
    congrArg Prod.snd (run_insertFact_of_known hknown)
  have hstored : fact ∈ (store.after [.insertFact fact]).facts := by
    rw [hleft]
    exact OrderedSet.mem_insert.mpr (.inl rfl)
  rw [run_deleteFact_of_mem hstored, hleft]
  simp only [OrderedSet.erase_insert hnew]

/-- A deletion takes away the facts that its filter accepts, counts them, and finds none of them a
second time; that of a single fact takes away this fact. An insertion brings the fact and says
whether it is new, and a new one that is deleted leaves the store as it was. -/
theorem facts_changed_exactly (store : Store) :
    (∀ filter,
      ChangesFacts (deleteFacts filter) store (store.facts.toList.countP filter.accepts)
          (fun fact => fact ∈ store.facts ∧ filter.accepts fact = false) ∧
        (deleteFacts filter).run (store.after [.deleteFacts filter]) =
          (.ok 0, store.after [.deleteFacts filter])) ∧
      (∀ fact ∈ store.facts,
        ChangesFacts (deleteFact fact) store () fun other => other ∈ store.facts ∧ other ≠ fact) ∧
      ∀ fact, store.catalog.Knows fact.pair →
        ChangesFacts (insertFact fact) store (decide (fact ∉ store.facts))
            (fun other => other ∈ store.facts ∨ other = fact) ∧
          (fact ∉ store.facts →
            (deleteFact fact).run (store.after [.insertFact fact]) = (.ok (), store)) := by
  refine ⟨?_, ?_, ?_⟩
  · intro filter
    refine ⟨.of_run (run_deleteFacts_eq filter store) ?_, run_deleteFacts_again filter store⟩
    intro fact
    simp
  · intro fact hfact
    exact .of_run (run_deleteFact_of_mem hfact) fun other => OrderedSet.mem_erase
  · intro fact hknown
    refine ⟨.of_run (run_insertFact_of_known hknown) ?_, run_deleteFact_after_insertFact hknown⟩
    intro other
    rw [OrderedSet.mem_insert, or_comm]

theorem facts_changed_exactly_os :
    let store := empty.after [.createTag "os", .createTag "size", .createValue "linux",
      .insertFact ⟨⟨7⟩, ⟨1⟩, some ⟨1⟩⟩, .insertFact ⟨⟨7⟩, ⟨2⟩, none⟩, .insertFact ⟨⟨8⟩, ⟨1⟩, none⟩]
    let valueless : Filter := { Filter.all with value := some none }
    let stored : Fact := ⟨⟨7⟩, ⟨2⟩, none⟩
    let fact : Fact := ⟨⟨7⟩, ⟨2⟩, some ⟨1⟩⟩
    ChangesFacts (deleteFacts valueless) store 2
        (fun fact => fact ∈ store.facts ∧ valueless.accepts fact = false) ∧
      (deleteFacts valueless).run (store.after [.deleteFacts valueless]) =
        (.ok 0, store.after [.deleteFacts valueless]) ∧
      stored ∈ store.facts ∧
      ChangesFacts (deleteFact stored) store ()
        (fun other => other ∈ store.facts ∧ other ≠ stored) ∧
      store.catalog.Knows fact.pair ∧ fact ∉ store.facts ∧
      ChangesFacts (insertFact fact) store true (fun other => other ∈ store.facts ∨ other = fact) ∧
      (deleteFact fact).run (store.after [.insertFact fact]) = (.ok (), store) := by
  intro store valueless stored fact
  have hstored : stored ∈ store.facts := by decide +kernel
  have hnew : fact ∉ store.facts := by decide +kernel
  have hknown : store.catalog.Knows fact.pair := by
    refine ⟨by decide +kernel, ?_⟩
    rintro value ⟨⟩
    decide +kernel
  obtain ⟨hdelete, hdeleteFact, hinsert⟩ := facts_changed_exactly store
  have hcount : store.facts.toList.countP valueless.accepts = 2 := by decide +kernel
  obtain ⟨hdeleted, hagain⟩ := hdelete valueless
  rw [hcount] at hdeleted
  obtain ⟨hinserted, hrestored⟩ := hinsert fact hknown
  rw [decide_eq_true hnew] at hinserted
  exact ⟨hdeleted, hagain, hstored, hdeleteFact stored hstored, hknown, hnew, hinserted,
    hrestored hnew⟩

end Store

end TagBase
