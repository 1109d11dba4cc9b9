import TagBase.Proofs.Engine.Conjunction
import TagBase.Proofs.Query.Rules
import TagBase.Proofs.Store.Facts

/-!
Growth: what becomes of answers when facts and rules come and go. More facts never lose a match, as
a matcher asks for facts only and decides an inequality on each of them alone. More rules can lose
only matches of an inequality, and a rule that the others entail changes the files of no answer.
-/

namespace TagBase

theorem Matcher.holds_of_subset {matcher : Matcher} {facts others : List Fact}
    (h : ∀ fact ∈ facts, fact ∈ others) (hholds : matcher.holds facts = true) :
    matcher.holds others = true := by
  induction matcher with
  | always => rfl
  | someFact test =>
      obtain ⟨fact, hfact, haccepts⟩ := List.any_eq_true.mp hholds
      exact List.any_eq_true.mpr ⟨fact, h fact hfact, haccepts⟩
  | both left right ihleft ihright =>
      rw [holds, Bool.and_eq_true] at hholds ⊢
      exact ⟨ihleft hholds.1, ihright hholds.2⟩

/-- Two results are both answers, and the second one shows whatever the first one shows. -/
inductive AnsweredWithin : Except Error Answer → Except Error Answer → Prop
  | files {files more : OrderedSet FileId} (h : ∀ file ∈ files, file ∈ more) :
      AnsweredWithin (.ok (.files files)) (.ok (.files more))
  | pairs {listed more : List ListedPair} (h : ∀ entry ∈ listed, entry ∈ more) :
      AnsweredWithin (.ok (.pairs listed)) (.ok (.pairs more))

namespace Store

section Facts

variable {base store left : Store}

theorem Matches.of_subset {matcher : Matcher} {file : FileId}
    (h : ∀ fact ∈ store.facts, fact ∈ left.facts) (hfile : store.Matches matcher file) :
    left.Matches matcher file := by
  obtain ⟨⟨fact, hfact, heq⟩, hholds⟩ := hfile
  refine ⟨⟨fact, h fact hfact, heq⟩, Matcher.holds_of_subset ?_ hholds⟩
  intro other hother
  obtain ⟨hmem, hfile⟩ := List.mem_filter.mp hother
  exact List.mem_filter.mpr ⟨h other hmem, hfile⟩

theorem Grounded.answeredWithin_of_subset (hbase : base.Grounded) {query : Query}
    {compiled : CompiledQuery} (h : base.compile query = .ok compiled)
    (hstore : Steps base store) (hleft : Steps base left) (hcatalog : left.catalog = store.catalog)
    (hfacts : ∀ fact ∈ store.facts, fact ∈ left.facts) (settings : Settings)
    (projection : Projection) :
    AnsweredWithin (store.run settings compiled projection)
      (left.run settings compiled projection) := by
  cases projection with
  | files =>
      refine .files ?_
      intro file hfile
      rw [mem_matchingFiles_iff_matches fun _ _ => rfl] at hfile ⊢
      exact hfile.of_subset hfacts
  | pairs =>
      obtain ⟨listed, -, hrun, hlisted⟩ :=
        hbase.exists_runWith_pairs (fun _ _ => rfl) hstore h settings
      obtain ⟨more, -, hrun', hmore⟩ :=
        hbase.exists_runWith_pairs (fun _ _ => rfl) hleft h settings
      rw [run, run, hrun, hrun']
      refine .pairs ?_
      intro entry hentry
      obtain ⟨pair, hpair, hresolve⟩ := (hlisted entry).mp hentry
      obtain ⟨fact, hfact, hfile, hcarried⟩ :=
        (mem_listedPairs_iff_matches fun _ _ => rfl).mp hpair
      have hpair' : pair ∈ left.listedPairs List.filter settings compiled :=
        (mem_listedPairs_iff_matches fun _ _ => rfl).mpr
          ⟨fact, hfacts fact hfact, hfile.of_subset hfacts, hcarried⟩
      exact (hmore entry).mpr ⟨pair, hpair', by rw [hcatalog, hresolve]⟩

theorem mem_facts_after_insertFact {fact other : Fact} (h : fact ∈ store.facts) :
    fact ∈ (store.after [.insertFact other]).facts := by
  change fact ∈ (((insertFact other).run store).2).facts
  rcases run_insertFact_cases other store with ⟨-, hrun⟩ | ⟨-, fault, hrun⟩
  · rw [hrun]
    exact OrderedSet.mem_insert.mpr (.inr h)
  · rw [hrun]
    exact h

theorem mem_facts_after_deleteFacts_iff {fact : Fact} {filter : Filter} :
    fact ∈ (store.after [.deleteFacts filter]).facts ↔
      fact ∈ store.facts ∧ fact ∉ store.find filter :=
  OrderedSet.mem_foldl_erase

theorem after_deleteFact (store : Store) (fact : Fact) :
    store.after [.deleteFact fact] = store.after [.deleteFacts (.ofFact fact)] := by
  change ((deleteFact fact).run store).2 = _
  rw [run_deleteFact]
  rfl

theorem Reachable.answeredWithin_insertFact (h : store.Reachable) {query : Query}
    {compiled : CompiledQuery} (hcompile : store.compile query = .ok compiled)
    (settings : Settings) (projection : Projection) (fact : Fact) :
    AnsweredWithin (store.run settings compiled projection)
      ((store.after [.insertFact fact]).run settings compiled projection) := by
  have hcatalog : (Operation.apply store (.insertFact fact)).catalog = store.catalog :=
    Operation.catalog_apply (by simp) (by simp) store
  exact h.grounded.answeredWithin_of_subset hcompile .refl (steps_after store [.insertFact fact])
    hcatalog (fun _ => mem_facts_after_insertFact) settings projection

theorem Reachable.answeredWithin_deleteFacts (h : store.Reachable) {query : Query}
    {compiled : CompiledQuery} (hcompile : store.compile query = .ok compiled)
    (settings : Settings) (projection : Projection) (filter : Filter) :
    AnsweredWithin ((store.after [.deleteFacts filter]).run settings compiled projection)
      (store.run settings compiled projection) :=
  h.grounded.answeredWithin_of_subset hcompile (steps_after store _) .refl rfl
    (fun _ hfact => (mem_facts_after_deleteFacts_iff.mp hfact).1) settings projection

/-- A matcher sees facts as a set and holds of more facts whenever it holds of fewer. So a query
that was compiled is answered with no less after a fact has come, and with no more after facts have
gone. -/
theorem answers_within_of_facts :
    (∀ (matcher : Matcher) (facts others : List Fact), (∀ fact ∈ facts, fact ∈ others) →
        matcher.holds facts = true → matcher.holds others = true) ∧
      (∀ (matcher : Matcher) (facts others : List Fact), (∀ fact, fact ∈ facts ↔ fact ∈ others) →
        matcher.holds facts = matcher.holds others) ∧
      ∀ store : Store, store.Reachable → ∀ query compiled, store.compile query = .ok compiled →
        ∀ settings projection,
          (∀ fact, AnsweredWithin (store.run settings compiled projection)
            ((store.after [.insertFact fact]).run settings compiled projection)) ∧
          (∀ filter, AnsweredWithin
            ((store.after [.deleteFacts filter]).run settings compiled projection)
            (store.run settings compiled projection)) ∧
          ∀ fact, AnsweredWithin ((store.after [.deleteFact fact]).run settings compiled projection)
            (store.run settings compiled projection) := by
  refine ⟨fun _ _ _ => Matcher.holds_of_subset, ?_, ?_⟩
  · intro matcher facts others h
    rw [Bool.eq_iff_iff]
    exact ⟨Matcher.holds_of_subset fun fact => (h fact).mp,
      Matcher.holds_of_subset fun fact => (h fact).mpr⟩
  · intro store hstore query compiled hcompile settings projection
    refine ⟨hstore.answeredWithin_insertFact hcompile settings projection,
      hstore.answeredWithin_deleteFacts hcompile settings projection, ?_⟩
    intro fact
    rw [after_deleteFact]
    exact hstore.answeredWithin_deleteFacts hcompile settings projection _

theorem answers_within_of_facts_mac :
    let store := empty.after [.createTag "os", .createValue "linux", .createValue "mac",
      .insertFact ⟨⟨1⟩, ⟨1⟩, some ⟨1⟩⟩, .insertFact ⟨⟨2⟩, ⟨1⟩, none⟩]
    let fact : Fact := ⟨⟨1⟩, ⟨1⟩, some ⟨2⟩⟩
    let left := store.after [.insertFact fact]
    let query : Query := .valued "os" .ne "linux"
    let compiled : CompiledQuery :=
      ⟨.someFact (.outside (.ofList [.any ⟨1⟩]) (.ofList [.exact ⟨1⟩ ⟨1⟩])), store.ruleGraph⟩
    compiled.matcher.holds [fact, ⟨⟨1⟩, ⟨1⟩, some ⟨1⟩⟩, fact] = true ∧
      store.Reachable ∧ store.compile query = .ok compiled ∧
      store.run .default compiled .files = .ok (.files (.ofList [⟨2⟩])) ∧
      left.run .default compiled .files = .ok (.files (.ofList [⟨1⟩, ⟨2⟩])) ∧
      AnsweredWithin (store.run .default compiled .pairs) (left.run .default compiled .pairs) ∧
      AnsweredWithin ((store.after [.deleteFact ⟨⟨2⟩, ⟨1⟩, none⟩]).run .default compiled .pairs)
        (store.run .default compiled .pairs) := by
  intro store fact left query compiled
  have hstore : store.Reachable := ⟨_, rfl⟩
  have hcompile : store.compile query = .ok compiled :=
    compile_eq_ok_iff.mpr ⟨by decide +kernel, rfl⟩
  obtain ⟨hsubset, -, hanswers⟩ := answers_within_of_facts
  obtain ⟨hinsert, -, hdelete⟩ := hanswers store hstore query compiled hcompile .default .pairs
  have hholds : compiled.matcher.holds [fact, ⟨⟨1⟩, ⟨1⟩, some ⟨1⟩⟩, fact] = true :=
    hsubset compiled.matcher [fact] _ (by simp) (by decide +kernel)
  exact ⟨hholds, hstore, hcompile, by decide +kernel, by decide +kernel, hinsert fact, hdelete _⟩

end Facts

section Rules

open RuleGraph (FollowsFrom)

section OtherRules

variable {store left : Store} (hcatalog : left.catalog = store.catalog)

include hcatalog

theorem exists_compile_of_catalog {query : Query} {compiled : CompiledQuery}
    (h : store.compile query = .ok compiled) :
    ∃ compiled', left.compile query = .ok compiled' := by
  rw [exists_compile_iff, hcatalog]
  exact exists_compile_iff.mp ⟨compiled, h⟩

theorem compile_eq_error_of_catalog {query : Query} {error : Error}
    (h : store.compile query = .error error) : left.compile query = .error error := by
  rw [compile_eq_error_iff, hcatalog]
  exact compile_eq_error_iff.mp h

variable (hfacts : left.facts = store.facts)
  (hrules : FollowsFrom store.rules.toList left.rules.toList)

include hfacts hrules

theorem Satisfies.of_followsFrom {file : FileId} {query : Query}
    (hback : query.Positive ∨ FollowsFrom left.rules.toList store.rules.toList)
    (hfile : store.Satisfies file query) : left.Satisfies file query := by
  rw [Satisfies, hcatalog, hfacts]
  exact ⟨hfile.1, hfile.2.of_followsFrom hrules hback⟩

theorem answeredWithin_of_followsFrom {query : Query} (hquery : (store.compile query).isOk = true)
    (hpositive : query.Positive) (settings : Settings) :
    AnsweredWithin (store.ask settings query .files) (left.ask settings query .files) := by
  obtain ⟨compiled, hcompile⟩ := exists_eq_ok_of_isOk hquery
  obtain ⟨compiled', hcompile'⟩ := exists_compile_of_catalog hcatalog hcompile
  rw [ask_files hcompile, ask_files hcompile']
  refine .files ?_
  intro file hfile
  rw [mem_matchingFiles_iff hcompile] at hfile
  rw [mem_matchingFiles_iff hcompile']
  exact hfile.of_followsFrom hcatalog hfacts hrules (.inl hpositive)

theorem ask_files_of_followsFrom (hback : FollowsFrom left.rules.toList store.rules.toList)
    (settings : Settings) (query : Query) :
    left.ask settings query .files = store.ask settings query .files := by
  cases hcompile : store.compile query with
  | error error =>
      rw [ask, ask, hcompile, compile_eq_error_of_catalog hcatalog hcompile]
      rfl
  | ok compiled =>
      obtain ⟨compiled', hcompile'⟩ := exists_compile_of_catalog hcatalog hcompile
      rw [ask_files hcompile, ask_files hcompile']
      congr 2
      apply OrderedSet.ext_mem
      intro file
      rw [mem_matchingFiles_iff hcompile, mem_matchingFiles_iff hcompile']
      constructor
      · exact .of_followsFrom hcatalog.symm hfacts.symm hback (.inr hrules)
      · exact .of_followsFrom hcatalog hfacts hrules (.inr hback)

end OtherRules

theorem after_addRule (store : Store) (rule : Rule) :
    let left := store.after [.addRule rule]
    left.catalog = store.catalog ∧ left.facts = store.facts ∧
      (∀ other ∈ store.rules, other ∈ left.rules) ∧
      ∀ other ∈ left.rules, other = rule ∨ other ∈ store.rules := by
  intro left
  have hleft : left = ((addRule rule).run store).2 := rfl
  rcases run_addRule_cases rule store with ⟨-, -, hrun⟩ | ⟨-, fault, hrun⟩
  · rw [hleft, hrun]
    refine ⟨rfl, rfl, ?_, fun _ => OrderedSet.mem_insert.mp⟩
    intro other hother
    exact OrderedSet.mem_insert.mpr (.inr hother)
  · rw [hleft, hrun]
    exact ⟨rfl, rfl, fun _ => id, fun _ => .inr⟩

/-- A query without inequalities keeps its matches when rules are added, and whether it compiles
does not depend on them. So a rule that is added takes away none of its files, and one that is
removed brings none. -/
theorem answers_within_of_rules {query : Query} (hpositive : query.Positive) :
    (∀ catalog (rules others : List Rule) matcher, (∀ rule ∈ rules, rule ∈ others) →
        query.compile catalog (.ofRules rules) = .ok matcher →
        ∃ matcher', query.compile catalog (.ofRules others) = .ok matcher' ∧
          ∀ facts, matcher.holds facts = true → matcher'.holds facts = true) ∧
      (∀ catalog (rules others : List Rule),
        (∃ matcher, query.compile catalog (.ofRules rules) = .ok matcher) ↔
          ∃ matcher, query.compile catalog (.ofRules others) = .ok matcher) ∧
      ∀ store : Store, (store.compile query).isOk = true → ∀ settings rule,
        AnsweredWithin (store.ask settings query .files)
            ((store.after [.addRule rule]).ask settings query .files) ∧
          AnsweredWithin ((store.after [.removeRule rule]).ask settings query .files)
            (store.ask settings query .files) := by
  have hcompiles : ∀ catalog (rules others : List Rule),
      (∃ matcher, query.compile catalog (.ofRules rules) = .ok matcher) ↔
        ∃ matcher, query.compile catalog (.ofRules others) = .ok matcher := by
    intro catalog rules others
    rw [Query.exists_compile_iff, Query.exists_compile_iff]
  refine ⟨?_, hcompiles, ?_⟩
  · intro catalog rules others matcher hsubset hcompile
    obtain ⟨matcher', hcompile'⟩ := (hcompiles catalog rules others).mp ⟨matcher, hcompile⟩
    refine ⟨matcher', hcompile', ?_⟩
    intro facts hholds
    rw [Query.holds_iff_of_compile hcompile] at hholds
    rw [Query.holds_iff_of_compile hcompile']
    exact hholds.of_followsFrom (.of_subset hsubset) (.inl hpositive)
  · intro store hquery settings rule
    constructor
    · obtain ⟨hcatalog, hfacts, hsubset, -⟩ := after_addRule store rule
      exact answeredWithin_of_followsFrom hcatalog hfacts (.of_subset hsubset) hquery hpositive
        settings
    · have hsubset : ∀ other ∈ (store.after [.removeRule rule]).rules, other ∈ store.rules :=
        fun other hother => (OrderedSet.mem_erase.mp hother).1
      have hcatalog : store.catalog = (store.after [.removeRule rule]).catalog := rfl
      have hfacts : store.facts = (store.after [.removeRule rule]).facts := rfl
      have hquery' : ((store.after [.removeRule rule]).compile query).isOk = true := by
        rw [isOk_compile_iff] at hquery ⊢
        exact hquery
      exact answeredWithin_of_followsFrom hcatalog hfacts (.of_subset hsubset) hquery' hpositive
        settings

theorem answers_within_of_rules_unix :
    let store := empty.after [.createTag "os", .createTag "unix", .createTag "posix",
      .createValue "linux", .addRule ⟨.any ⟨3⟩, .any ⟨2⟩⟩, .insertFact ⟨⟨1⟩, ⟨1⟩, some ⟨1⟩⟩,
      .insertFact ⟨⟨2⟩, ⟨2⟩, none⟩, .insertFact ⟨⟨3⟩, ⟨3⟩, none⟩]
    let query : Query := .both (.tagged "unix") (.anyValue "unix")
    query.Positive ∧ (store.compile query).isOk = true ∧
      store.ask .default query .files = .ok (.files (.ofList [⟨2⟩, ⟨3⟩])) ∧
      (store.after [.addRule ⟨.exact ⟨1⟩ ⟨1⟩, .any ⟨2⟩⟩]).ask .default query .files =
        .ok (.files (.ofList [⟨1⟩, ⟨2⟩, ⟨3⟩])) ∧
      AnsweredWithin (store.ask .default query .files)
        ((store.after [.addRule ⟨.exact ⟨1⟩ ⟨1⟩, .any ⟨2⟩⟩]).ask .default query .files) ∧
      AnsweredWithin ((store.after [.removeRule ⟨.any ⟨3⟩, .any ⟨2⟩⟩]).ask .default query .files)
        (store.ask .default query .files) := by
  intro store query
  have hpositive : query.Positive := ⟨trivial, trivial⟩
  have hquery : (store.compile query).isOk = true := by decide +kernel
  obtain ⟨-, -, hrules⟩ := answers_within_of_rules hpositive
  exact ⟨hpositive, hquery, by decide +kernel, by decide +kernel,
    (hrules store hquery .default _).1, (hrules store hquery .default _).2⟩

example :
    let store := empty.after [.createTag "os", .createValue "linux", .insertFact ⟨⟨1⟩, ⟨1⟩, none⟩]
    let query : Query := .valued "os" .ne "linux"
    store.ask .default query .files = .ok (.files (.ofList [⟨1⟩])) ∧
      (store.after [.addRule ⟨.any ⟨1⟩, .exact ⟨1⟩ ⟨1⟩⟩]).ask .default query .files =
        .ok (.files .empty) := by
  decide +kernel

/-- A rule that the others entail already changes the answer to no query that is asked for files,
nor its error. -/
theorem ask_files_after_entailed {store : Store} {rule : Rule}
    (h : rule.implied ∈ store.ruleGraph.closure rule.source) (settings : Settings) (query : Query) :
    (store.after [.addRule rule]).ask settings query .files = store.ask settings query .files := by
  obtain ⟨hcatalog, hfacts, hsubset, hadded⟩ := after_addRule store rule
  refine ask_files_of_followsFrom hcatalog hfacts (.of_subset hsubset) ?_ settings query
  intro other hother
  rcases hadded other hother with rfl | hother
  · exact RuleGraph.entails_of_mem_closure h
  · exact RuleGraph.entails_of_mem hother

theorem ask_files_after_entailed_self :
    let store := empty.after [.createTag "os", .createValue "linux", .createValue "mac",
      .insertFact ⟨⟨1⟩, ⟨1⟩, some ⟨1⟩⟩, .insertFact ⟨⟨2⟩, ⟨1⟩, some ⟨2⟩⟩]
    let rule : Rule := ⟨.any ⟨1⟩, .any ⟨1⟩⟩
    let left := store.after [.addRule rule]
    rule.implied ∈ store.ruleGraph.closure rule.source ∧ rule ∈ left.rules ∧
      ¬ Pair.any ⟨1⟩ ∈ store.ruleGraph.closure (.exact ⟨1⟩ ⟨1⟩) ∧
      Pair.any ⟨1⟩ ∈ left.ruleGraph.closure (.exact ⟨1⟩ ⟨1⟩) ∧
      store.ask .default (.valued "os" .ne "linux") .files = .ok (.files (.ofList [⟨2⟩])) ∧
      left.ask .default (.valued "os" .ne "linux") .files =
        store.ask .default (.valued "os" .ne "linux") .files := by
  intro store rule left
  have hentailed : rule.implied ∈ store.ruleGraph.closure rule.source := by decide +kernel
  exact ⟨hentailed, by decide +kernel, by decide +kernel, by decide +kernel, by decide +kernel,
    ask_files_after_entailed hentailed _ _⟩

end Rules

end Store

end TagBase
