import Mathlib.Logic.Relation
import TagBase.Proofs.Catalog
import TagBase.Store

namespace TagBase

namespace Store

section Runs

variable {α β : Type}

theorem run_bind (change : Change α) (next : α → Change β) (store : Store) :
    (change >>= next).run store =
      match change.run store with
      | (.ok a, left) => (next a).run left
      | (.error error, left) => (.error error, left) := by
  rw [ExceptT.run_bind]
  change (StateT.bind change.run _) store = _
  rw [StateT.bind]
  change (match change.run store with | (a, left) => _) = _
  rcases change.run store with ⟨_ | _, _⟩ <;> rfl

theorem run_get (store : Store) : (get : Change Store).run store = (.ok store, store) := rfl

theorem run_set (left store : Store) : (set left : Change PUnit).run store = (.ok ⟨⟩, left) := rfl

theorem run_throw (error : Error) (store : Store) :
    (throw error : Change α).run store = (.error error, store) := rfl

theorem run_pure (a : α) (store : Store) : (pure a : Change α).run store = (.ok a, store) := rfl

theorem run_requireTag_cases (tag : TagId) (store : Store) :
    store.catalog.tags.contains tag = true ∧ (requireTag tag).run store = (.ok (), store) ∨
      ¬ store.catalog.tags.contains tag = true ∧
        ∃ fault, (requireTag tag).run store = (.error (.input fault), store) := by
  simp only [requireTag, run_bind, run_get]
  split
  · rename_i htag
    exact .inl ⟨htag, rfl⟩
  · rename_i htag
    exact .inr ⟨htag, _, rfl⟩

theorem run_requireValue_cases (value : Option ValueId) (fault : ValueId → InputFault)
    (store : Store) :
    (∀ id, value = some id → store.catalog.values.contains id = true) ∧
        (requireValue value fault).run store = (.ok (), store) ∨
      ¬ (∀ id, value = some id → store.catalog.values.contains id = true) ∧
        ∃ fault', (requireValue value fault).run store = (.error (.input fault'), store) := by
  cases value with
  | none => exact .inl ⟨by simp, rfl⟩
  | some id =>
      simp only [requireValue, run_bind, run_get, Option.some.injEq, forall_eq']
      split
      · rename_i hvalue
        exact .inl ⟨hvalue, rfl⟩
      · rename_i hvalue
        exact .inr ⟨hvalue, _, rfl⟩

end Runs

theorem run_create {kind : Kind} (part : Catalog.Part kind) (name : String) (store : Store) :
    (create part name).run store =
      if name = "" then (.error (.input part.emptyName), store)
      else
        match (part.registry store.catalog).idOf? name with
        | some id =>
            (match (part.registry store.catalog).get? id with
              | some record => .ok record
              | none => .error (.storage (part.outOfSync id)),
              store)
        | none =>
            (.ok ((part.registry store.catalog).next name),
              { store with
                catalog :=
                  part.replace store.catalog ((part.registry store.catalog).add name) }) := by
  rw [create]
  by_cases hname : name = ""
  · simp [hname, run_throw]
  · simp only [hname, if_false, run_bind, run_get]
    cases (part.registry store.catalog).idOf? name with
    | none => rfl
    | some id =>
        cases hget : (part.registry store.catalog).get? id <;>
          simp only [hget, run_throw, run_pure]

theorem store_create_cases {kind : Kind} (part : Catalog.Part kind) (name : String)
    (store : Store) :
    ((create part name).run store).2 = store ∨
      name ≠ "" ∧ (part.registry store.catalog).idOf? name = none ∧
        ((create part name).run store).2 =
          { store with
            catalog := part.replace store.catalog ((part.registry store.catalog).add name) } := by
  rw [run_create]
  split
  · exact .inl rfl
  · rename_i hname
    cases hid : (part.registry store.catalog).idOf? name with
    | some id => exact .inl rfl
    | none => exact .inr ⟨hname, rfl, rfl⟩

theorem run_removeRule (rule : Rule) (store : Store) :
    (removeRule rule).run store =
      (.ok (decide (rule ∈ store.rules)), { store with rules := store.rules.erase rule }) := rfl

theorem run_deleteFacts (filter : Filter) (store : Store) :
    (deleteFacts filter).run store =
      (.ok (store.find filter).length,
        { store with facts := (store.find filter).foldl .erase store.facts }) := rfl

theorem run_addRule_cases (rule : Rule) (store : Store) :
    store.catalog.Knows rule.source ∧ store.catalog.Knows rule.implied ∧
        (addRule rule).run store =
          (.ok (decide (rule ∉ store.rules)), { store with rules := store.rules.insert rule }) ∨
      ¬ (store.catalog.Knows rule.source ∧ store.catalog.Knows rule.implied) ∧
        ∃ fault, (addRule rule).run store = (.error (.input fault), store) := by
  rcases run_requireTag_cases rule.source.tag store with ⟨hsource, hrun₁⟩ | ⟨hsource, fault, hrun₁⟩
  · rcases run_requireTag_cases rule.implied.tag store with
      ⟨himplied, hrun₂⟩ | ⟨himplied, fault, hrun₂⟩
    · rcases run_requireValue_cases rule.source.selector.value? .unknownRuleValue store with
        ⟨hsourceValue, hrun₃⟩ | ⟨hsourceValue, fault, hrun₃⟩
      · rcases run_requireValue_cases rule.implied.selector.value? .unknownRuleValue store with
          ⟨himpliedValue, hrun₄⟩ | ⟨himpliedValue, fault, hrun₄⟩
        · refine .inl ⟨⟨hsource, hsourceValue⟩, ⟨himplied, himpliedValue⟩, ?_⟩
          simp only [addRule, run_bind, hrun₁, hrun₂, hrun₃, hrun₄, run_get, run_set, run_pure]
        · refine .inr ⟨fun h => himpliedValue h.2.2, fault, ?_⟩
          simp only [addRule, run_bind, hrun₁, hrun₂, hrun₃, hrun₄]
      · refine .inr ⟨fun h => hsourceValue h.1.2, fault, ?_⟩
        simp only [addRule, run_bind, hrun₁, hrun₂, hrun₃]
    · refine .inr ⟨fun h => himplied h.2.1, fault, ?_⟩
      simp only [addRule, run_bind, hrun₁, hrun₂]
  · refine .inr ⟨fun h => hsource h.1.1, fault, ?_⟩
    simp only [addRule, run_bind, hrun₁]

theorem run_insertFact_cases (fact : Fact) (store : Store) :
    store.catalog.Knows fact.pair ∧
        (insertFact fact).run store =
          (.ok (decide (fact ∉ store.facts)), { store with facts := store.facts.insert fact }) ∨
      ¬ store.catalog.Knows fact.pair ∧
        ∃ fault, (insertFact fact).run store = (.error (.input fault), store) := by
  rcases run_requireTag_cases fact.tag store with ⟨htag, hrun₁⟩ | ⟨htag, fault, hrun₁⟩
  · rcases run_requireValue_cases fact.value .unknownFactValue store with
      ⟨hknown, hrun₂⟩ | ⟨hknown, fault, hrun₂⟩
    · refine .inl ⟨⟨by rwa [fact.pair_tag], by rwa [fact.pair_value?]⟩, ?_⟩
      simp only [insertFact, run_bind, hrun₁, hrun₂, run_get, run_set, run_pure]
    · refine .inr ⟨fun h => hknown (fact.pair_value? ▸ h.2), fault, ?_⟩
      simp only [insertFact, run_bind, hrun₁, hrun₂]
  · refine .inr ⟨fun h => htag (fact.pair_tag ▸ h.1), fault, ?_⟩
    simp only [insertFact, run_bind, hrun₁]

theorem run_copyFacts (source dest : TagId) (store : Store) :
    (copyFacts source dest).run store =
      (insertFacts ((store.find (.ofTag source)).map fun fact =>
        { fact with tag := dest })).run store := rfl

theorem run_deleteFact (fact : Fact) (store : Store) :
    (deleteFact fact).run store =
      (if (store.find (.ofFact fact)).length = 0 then .error (.noSuchFact fact) else .ok (),
        { store with facts := (store.find (.ofFact fact)).foldl .erase store.facts }) := by
  simp only [deleteFact, run_bind, run_deleteFacts]
  split <;> rfl

/-- One guarded change of one table. -/
inductive Step : Store → Store → Prop
  | addTag {store : Store} {name : String} (hname : name ≠ "")
      (hnew : store.catalog.tags.idOf? name = none) :
      Step store
        { store with catalog := { store.catalog with tags := store.catalog.tags.add name } }
  | addValue {store : Store} {name : String} (hname : name ≠ "")
      (hnew : store.catalog.values.idOf? name = none) :
      Step store
        { store with catalog := { store.catalog with values := store.catalog.values.add name } }
  | addRule {store : Store} {rule : Rule} (hsource : store.catalog.Knows rule.source)
      (himplied : store.catalog.Knows rule.implied) :
      Step store { store with rules := store.rules.insert rule }
  | removeRule {store : Store} {rule : Rule} :
      Step store { store with rules := store.rules.erase rule }
  | addFact {store : Store} {fact : Fact} (hfact : store.catalog.Knows fact.pair) :
      Step store { store with facts := store.facts.insert fact }
  | removeFact {store : Store} {fact : Fact} :
      Step store { store with facts := store.facts.erase fact }

abbrev Steps : Store → Store → Prop := Relation.ReflTransGen Step

theorem Steps.keep {motive : Store → Prop} {store left : Store} (hsteps : Steps store left)
    (hkeep : ∀ store left, Step store left → motive store → motive left) (h : motive store) :
    motive left := by
  induction hsteps with
  | refl => exact h
  | tail _ hstep ih => exact hkeep _ _ hstep ih

theorem steps_bind {α β : Type} {change : Change α} {next : α → Change β} {store : Store}
    (hchange : Steps store (change.run store).2)
    (hnext : ∀ a left, Steps left ((next a).run left).2) :
    Steps store ((change >>= next).run store).2 := by
  rw [run_bind]
  generalize change.run store = outcome at hchange
  obtain ⟨_ | a, left⟩ := outcome
  · exact hchange
  · exact hchange.trans (hnext a left)

theorem steps_create {kind : Kind} (part : Catalog.Part kind) {name : String} {store : Store}
    (hadd : name ≠ "" → (part.registry store.catalog).idOf? name = none →
      Step store
        { store with
          catalog := part.replace store.catalog ((part.registry store.catalog).add name) }) :
    Steps store ((create part name).run store).2 := by
  rcases store_create_cases part name store with hrun | ⟨hname, hnew, hrun⟩
  · rw [hrun]
  · rw [hrun]
    exact .single (hadd hname hnew)

theorem steps_addRule (rule : Rule) (store : Store) :
    Steps store ((addRule rule).run store).2 := by
  rcases run_addRule_cases rule store with ⟨hsource, himplied, hrun⟩ | ⟨-, fault, hrun⟩
  · rw [hrun]
    exact .single (.addRule hsource himplied)
  · rw [hrun]

theorem steps_insertFact (fact : Fact) (store : Store) :
    Steps store ((insertFact fact).run store).2 := by
  rcases run_insertFact_cases fact store with ⟨hfact, hrun⟩ | ⟨-, fault, hrun⟩
  · rw [hrun]
    exact .single (.addFact hfact)
  · rw [hrun]

theorem steps_insertFacts (facts : List Fact) (store : Store) :
    Steps store ((insertFacts facts).run store).2 := by
  induction facts generalizing store with
  | nil => exact .refl
  | cons fact rest ih =>
      apply steps_bind (steps_insertFact fact store)
      intro isNew left
      apply steps_bind (ih left)
      intro others last
      exact .refl

theorem steps_eraseFacts (facts : List Fact) (store : Store) :
    Steps store { store with facts := facts.foldl .erase store.facts } := by
  induction facts generalizing store with
  | nil => exact .refl
  | cons fact rest ih =>
      have hstep : Step store { store with facts := store.facts.erase fact } := .removeFact
      exact .head hstep (ih { store with facts := store.facts.erase fact })

end Store

inductive Operation where
  | createTag (name : String)
  | createValue (name : String)
  | addRule (rule : Rule)
  | removeRule (rule : Rule)
  | insertFact (fact : Fact)
  | deleteFacts (filter : Filter)
  | deleteFact (fact : Fact)
  | copyFacts (source dest : TagId)
deriving DecidableEq

namespace Operation

/-- The store that an operation leaves behind, whether it answers or fails. -/
def apply (store : Store) : Operation → Store
  | .createTag name => ((Store.createTag name).run store).2
  | .createValue name => ((Store.createValue name).run store).2
  | .addRule rule => ((Store.addRule rule).run store).2
  | .removeRule rule => ((Store.removeRule rule).run store).2
  | .insertFact fact => ((Store.insertFact fact).run store).2
  | .deleteFacts filter => ((Store.deleteFacts filter).run store).2
  | .deleteFact fact => ((Store.deleteFact fact).run store).2
  | .copyFacts source dest => ((Store.copyFacts source dest).run store).2

theorem steps_apply (store : Store) (operation : Operation) :
    Store.Steps store (apply store operation) := by
  cases operation with
  | createTag name => exact Store.steps_create .tags .addTag
  | createValue name => exact Store.steps_create .values .addValue
  | addRule rule => exact Store.steps_addRule rule store
  | removeRule rule =>
      rw [apply, Store.run_removeRule]
      exact .single .removeRule
  | insertFact fact => exact Store.steps_insertFact fact store
  | deleteFacts filter => exact Store.steps_eraseFacts _ store
  | deleteFact fact =>
      rw [apply, Store.run_deleteFact]
      exact Store.steps_eraseFacts _ store
  | copyFacts source dest =>
      rw [apply, Store.run_copyFacts]
      exact Store.steps_insertFacts _ store

end Operation

namespace Store

def after (store : Store) (operations : List Operation) : Store :=
  operations.foldl Operation.apply store

theorem steps_after (store : Store) (operations : List Operation) :
    Steps store (store.after operations) := by
  induction operations generalizing store with
  | nil => exact .refl
  | cons operation rest ih => exact (operation.steps_apply store).trans (ih _)

/-- A store that comes about by operations on the empty one. -/
def Reachable (store : Store) : Prop := ∃ operations, store = empty.after operations

theorem Step.knows {store left : Store} (hstep : Step store left) {pair : Pair}
    (h : store.catalog.Knows pair) : left.catalog.Knows pair := by
  cases hstep with
  | addTag => exact ⟨Registry.contains_add h.1 _, h.2⟩
  | addValue => exact ⟨h.1, fun value hvalue => Registry.contains_add (h.2 value hvalue) _⟩
  | _ => exact h

theorem Steps.knows {store left : Store} (hsteps : Steps store left) {pair : Pair}
    (h : store.catalog.Knows pair) : left.catalog.Knows pair :=
  hsteps.keep (motive := fun store => store.catalog.Knows pair) (fun _ _ hstep => hstep.knows) h

/-- The facts and the rules speak of known tags and values only. -/
structure Grounded (store : Store) : Prop where
  knows_fact : ∀ fact ∈ store.facts, store.catalog.Knows fact.pair
  knows_rule : ∀ rule ∈ store.rules,
    store.catalog.Knows rule.source ∧ store.catalog.Knows rule.implied

theorem grounded_empty : empty.Grounded := by
  constructor
  · intro fact hfact
    exact absurd hfact (OrderedSet.not_mem_empty fact)
  · intro rule hrule
    exact absurd hrule (OrderedSet.not_mem_empty rule)

theorem Grounded.of_subset {store left : Store} (h : store.Grounded)
    (hcatalog : ∀ pair, store.catalog.Knows pair → left.catalog.Knows pair)
    (hfacts : ∀ fact ∈ left.facts, fact ∈ store.facts)
    (hrules : ∀ rule ∈ left.rules, rule ∈ store.rules) : left.Grounded := by
  constructor
  · intro fact hfact
    exact hcatalog _ (h.knows_fact fact (hfacts fact hfact))
  · intro rule hrule
    obtain ⟨hsource, himplied⟩ := h.knows_rule rule (hrules rule hrule)
    exact ⟨hcatalog _ hsource, hcatalog _ himplied⟩

theorem Grounded.step {store left : Store} (h : store.Grounded) (hstep : Step store left) :
    left.Grounded := by
  have hknows : ∀ pair, store.catalog.Knows pair → left.catalog.Knows pair := fun _ => hstep.knows
  cases hstep with
  | addTag | addValue =>
      exact h.of_subset hknows (fun _ hfact => hfact) (fun _ hrule => hrule)
  | addRule hsource himplied =>
      refine ⟨h.knows_fact, ?_⟩
      intro rule hrule
      rcases OrderedSet.mem_insert.mp hrule with rfl | hrule
      · exact ⟨hsource, himplied⟩
      · exact h.knows_rule rule hrule
  | removeRule =>
      exact h.of_subset hknows (fun _ hfact => hfact)
        (fun _ hrule => (OrderedSet.mem_erase.mp hrule).1)
  | addFact hnew =>
      refine ⟨?_, h.knows_rule⟩
      intro fact hfact
      rcases OrderedSet.mem_insert.mp hfact with rfl | hfact
      · exact hnew
      · exact h.knows_fact fact hfact
  | removeFact =>
      exact h.of_subset hknows (fun _ hfact => (OrderedSet.mem_erase.mp hfact).1)
        (fun _ hrule => hrule)

theorem Grounded.steps {store left : Store} (h : store.Grounded) (hsteps : Steps store left) :
    left.Grounded :=
  hsteps.keep (fun _ _ hstep hstore => hstore.step hstep) h

theorem Reachable.grounded {store : Store} (h : store.Reachable) : store.Grounded := by
  obtain ⟨operations, rfl⟩ := h
  exact grounded_empty.steps (steps_after empty operations)

end Store

end TagBase
