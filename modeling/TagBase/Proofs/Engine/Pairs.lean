import TagBase.Proofs.Engine.Answers
import TagBase.Proofs.Listing.Order
import TagBase.Proofs.Store.Names

namespace TagBase

theorem mem_carriedPairs_iff_exists {implied : Option RuleGraph} {facts : List Fact} {pair : Pair} :
    pair ∈ carriedPairs implied facts ↔
      ∃ fact ∈ facts,
        pair = fact.pair ∨ ∃ graph, implied = some graph ∧ pair ∈ graph.closure fact.pair := by
  cases implied with
  | none => simp [carriedPairs, eq_comm]
  | some graph =>
      simp only [mem_carriedPairs_iff, Option.some.injEq, exists_eq_left',
        RuleGraph.eq_or_mem_closure_iff]

namespace Store

def listedPairs (shared : GroupFilter) (store : Store) (settings : Settings)
    (compiled : CompiledQuery) : PairSet :=
  carriedPairs (if settings.listImplied then some compiled.graph else none)
    ((store.matchingGroups shared settings compiled).flatMap FileFacts.facts)

theorem matchingPairs_eq (shared : GroupFilter) (store : Store) (settings : Settings)
    (compiled : CompiledQuery) :
    store.matchingPairs shared settings compiled =
      (store.listedPairs shared settings compiled).listing store.catalog := rfl

section Stale

variable {shared : GroupFilter} (hshared : ∀ keep groups, shared keep groups = groups.filter keep)

include hshared

theorem mem_listedPairs_iff_matches {store : Store} {settings : Settings}
    {compiled : CompiledQuery} {pair : Pair} :
    pair ∈ store.listedPairs shared settings compiled ↔
      ∃ fact ∈ store.facts, store.Matches compiled.matcher fact.file ∧
        (pair = fact.pair ∨
          settings.listImplied = true ∧ pair ∈ compiled.graph.closure fact.pair) := by
  have himplied : ∀ graph, (if settings.listImplied then some compiled.graph else none) =
      some graph ↔ settings.listImplied = true ∧ compiled.graph = graph := by
    simp
  rw [listedPairs, mem_carriedPairs_iff_exists]
  simp only [himplied, List.mem_flatMap, mem_matchingGroups_iff_matches hshared]
  constructor
  · rintro ⟨fact, ⟨_, ⟨file, hfile, rfl⟩, hfact⟩, hpair⟩
    obtain ⟨hmem, heq⟩ := List.mem_filter.mp hfact
    obtain rfl : fact.file = file := of_decide_eq_true heq
    refine ⟨fact, hmem, hfile, hpair.imp_right ?_⟩
    rintro ⟨_, ⟨hsettings, rfl⟩, hclosure⟩
    exact ⟨hsettings, hclosure⟩
  · rintro ⟨fact, hfact, hfile, hpair⟩
    refine ⟨fact, ⟨_, ⟨fact.file, hfile, rfl⟩, List.mem_filter.mpr ⟨hfact, by simp⟩⟩,
      hpair.imp_right ?_⟩
    rintro ⟨hsettings, hclosure⟩
    exact ⟨_, ⟨hsettings, rfl⟩, hclosure⟩

theorem Grounded.knows_of_mem_listedPairs {base store : Store} (hbase : base.Grounded)
    (hsteps : Steps base store) {query : Query} {compiled : CompiledQuery}
    (h : base.compile query = .ok compiled) {settings : Settings} {pair : Pair}
    (hpair : pair ∈ store.listedPairs shared settings compiled) : store.catalog.Knows pair := by
  obtain ⟨fact, hfact, -, hcarried⟩ := (mem_listedPairs_iff_matches hshared).mp hpair
  have hknows := (hbase.steps hsteps).knows_fact fact hfact
  rcases hcarried with rfl | ⟨-, hclosure⟩
  · exact hknows
  · rw [(compile_eq_ok_iff.mp h).2] at hclosure
    refine RuleGraph.forall_mem_closure ?_ hknows pair hclosure
    intro rule hrule
    exact hsteps.knows (hbase.knows_rule rule hrule).2

theorem Grounded.exists_runWith_pairs {base store : Store} (hbase : base.Grounded)
    (hsteps : Steps base store) {query : Query} {compiled : CompiledQuery}
    (h : base.compile query = .ok compiled) (settings : Settings) :
    ∃ listed, (store.listedPairs shared settings compiled).listing store.catalog = .ok listed ∧
      store.runWith shared settings compiled .pairs = .ok (.pairs listed) ∧
      ∀ entry, entry ∈ listed ↔ ∃ pair ∈ store.listedPairs shared settings compiled,
        store.catalog.resolvePair pair = .ok entry := by
  obtain ⟨listed, hlisting, hlisted⟩ := PairSet.exists_listing fun _ =>
    hbase.knows_of_mem_listedPairs hshared hsteps h
  refine ⟨listed, hlisting, ?_, hlisted⟩
  rw [runWith, matchingPairs_eq, hlisting]
  rfl

end Stale

/-- A query that was compiled at one point of a history is answered at every later one, whatever
has become of the rules and the facts. -/
theorem exists_answer_of_compiled {shared : GroupFilter}
    (hshared : ∀ keep groups, shared keep groups = groups.filter keep)
    {earlier later : List Operation} {query : Query} {compiled : CompiledQuery}
    (hcompile : (empty.after earlier).compile query = .ok compiled) (settings : Settings)
    (projection : Projection) :
    ∃ answer, (empty.after (earlier ++ later)).runWith shared settings compiled projection =
      .ok answer := by
  have hearlier : (empty.after earlier).Grounded := grounded_empty.steps (steps_after _ _)
  cases projection with
  | files => exact ⟨_, rfl⟩
  | pairs =>
      obtain ⟨listed, -, hrun, -⟩ :=
        hearlier.exists_runWith_pairs hshared (steps_append earlier later) hcompile settings
      exact ⟨.pairs listed, hrun⟩

theorem exists_answer_of_compiled_unix :
    let earlier : List Operation := [.createTag "os", .createTag "unix", .createValue "linux",
      .addRule ⟨.exact ⟨1⟩ ⟨1⟩, .any ⟨2⟩⟩, .insertFact ⟨⟨1⟩, ⟨1⟩, some ⟨1⟩⟩]
    let later : List Operation := [.removeRule ⟨.exact ⟨1⟩ ⟨1⟩, .any ⟨2⟩⟩,
      .deleteFact ⟨⟨1⟩, ⟨1⟩, some ⟨1⟩⟩, .insertFact ⟨⟨2⟩, ⟨1⟩, some ⟨1⟩⟩]
    (∀ keep groups, filterHalves keep groups = groups.filter keep) ∧
      ∃ compiled, (empty.after earlier).compile (.tagged "unix") = .ok compiled ∧
        ∃ answer, (empty.after (earlier ++ later)).runWith filterHalves ⟨true, false, 1⟩ compiled
          .pairs = .ok answer := by
  intro earlier later
  have hquery : ((empty.after earlier).compile (.tagged "unix")).isOk = true := by decide +kernel
  obtain ⟨compiled, hcompile⟩ := exists_eq_ok_of_isOk hquery
  exact ⟨filterHalves_eq, compiled, hcompile,
    exists_answer_of_compiled filterHalves_eq hcompile _ _⟩

theorem mem_listedPairs_iff {store : Store} {settings : Settings} {query : Query}
    {compiled : CompiledQuery} (h : store.compile query = .ok compiled) {pair : Pair} :
    pair ∈ store.listedPairs List.filter settings compiled ↔
      ∃ fact ∈ store.facts, fact.file ∈ store.matchingFiles List.filter settings compiled ∧
        (pair = fact.pair ∨
          settings.listImplied = true ∧ pair ∈ store.ruleGraph.closure fact.pair) := by
  simp only [mem_listedPairs_iff_matches fun _ _ => rfl,
    mem_matchingFiles_iff_matches fun _ _ => rfl, (compile_eq_ok_iff.mp h).2]

theorem ask_eq_run {store : Store} {query : Query} {compiled : CompiledQuery}
    (h : store.compile query = .ok compiled) (settings : Settings) (projection : Projection) :
    store.ask settings query projection = store.run settings compiled projection := by
  rw [ask, h]
  rfl

theorem Grounded.exists_ask_pairs {store : Store} (hstore : store.Grounded) {query : Query}
    {compiled : CompiledQuery} (h : store.compile query = .ok compiled) (settings : Settings) :
    ∃ listed, (store.listedPairs List.filter settings compiled).listing store.catalog = .ok listed ∧
      store.ask settings query .pairs = .ok (.pairs listed) ∧
      ∀ entry, entry ∈ listed ↔ ∃ pair ∈ store.listedPairs List.filter settings compiled,
        store.catalog.resolvePair pair = .ok entry := by
  rw [ask_eq_run h]
  exact hstore.exists_runWith_pairs (fun _ _ => rfl) .refl h settings

/-- A query that compiles is answered with a listing in strict order, of the names behind what the
facts of its files carry and, where that is asked for, imply. -/
theorem exists_listing_exact {operations : List Operation} (h : Operation.FewNames operations)
    {query : Query} (hquery : ((empty.after operations).compile query).isOk = true)
    (settings : Settings) :
    let store := empty.after operations
    ∃ listed files,
      store.ask settings query .pairs = .ok (.pairs listed) ∧
        store.ask settings query .files = .ok (.files files) ∧
        listed.Pairwise ListedPair.Before ∧ listed.Nodup ∧
        ∀ entry, entry ∈ listed ↔
          ∃ fact ∈ store.facts, fact.file ∈ files ∧
            (entry.Resolves store.catalog fact.tag fact.value ∨
              settings.listImplied = true ∧
                ∃ pair ∈ store.ruleGraph.closure fact.pair,
                  entry.Resolves store.catalog pair.tag pair.selector.value?) := by
  intro store
  have hstore : store.Sound := sound_after h
  obtain ⟨compiled, hcompile⟩ := exists_eq_ok_of_isOk hquery
  change store.compile query = .ok compiled at hcompile
  clear_value store
  obtain ⟨listed, hlisting, hpairs, hlisted⟩ := hstore.toGrounded.exists_ask_pairs hcompile settings
  have hordered := PairSet.pairwise_before_of_listing hstore.tags hstore.values hlisting
  refine ⟨listed, store.matchingFiles List.filter settings compiled, hpairs,
    ask_files hcompile settings, hordered, hordered.imp ListedPair.Before.ne, ?_⟩
  intro entry
  simp only [hlisted, mem_listedPairs_iff hcompile, Catalog.resolvePair_eq_ok_iff_resolves]
  constructor
  · rintro ⟨pair, ⟨fact, hfact, hfile, rfl | ⟨hsettings, hclosure⟩⟩, hentry⟩
    · rw [fact.pair_tag, fact.pair_value?] at hentry
      exact ⟨fact, hfact, hfile, .inl hentry⟩
    · exact ⟨fact, hfact, hfile, .inr ⟨hsettings, pair, hclosure, hentry⟩⟩
  · rintro ⟨fact, hfact, hfile, hentry | ⟨hsettings, pair, hclosure, hentry⟩⟩
    · refine ⟨fact.pair, ⟨fact, hfact, hfile, .inl rfl⟩, ?_⟩
      rwa [fact.pair_tag, fact.pair_value?]
    · exact ⟨pair, ⟨fact, hfact, hfile, .inr ⟨hsettings, hclosure⟩⟩, hentry⟩

theorem exists_listing_exact_kernel :
    let operations : List Operation := [.createTag "os", .createTag "kernel", .createValue "linux",
      .addRule ⟨.exact ⟨1⟩ ⟨1⟩, .any ⟨2⟩⟩, .insertFact ⟨⟨1⟩, ⟨1⟩, some ⟨1⟩⟩,
      .insertFact ⟨⟨2⟩, ⟨2⟩, none⟩]
    let store := empty.after operations
    let settings : Settings := ⟨true, true, 0⟩
    Operation.FewNames operations ∧ (store.compile (.tagged "kernel")).isOk = true ∧
      ∃ listed, store.ask settings (.tagged "kernel") .pairs = .ok (.pairs listed) ∧
        listed.Pairwise ListedPair.Before ∧ ⟨⟨⟨2⟩, "kernel"⟩, none⟩ ∈ listed ∧
        ⟨⟨⟨1⟩, "os"⟩, some ⟨⟨1⟩, "linux"⟩⟩ ∈ listed := by
  intro operations store settings
  have hfew : Operation.FewNames operations := by
    intro kind
    cases kind <;> decide +kernel
  have hquery : (store.compile (.tagged "kernel")).isOk = true := by decide +kernel
  have hasked : store.ask settings (.tagged "kernel") .files =
      .ok (.files (.ofList [⟨1⟩, ⟨2⟩])) := by decide +kernel
  obtain ⟨listed, files, hlisted, hfiles, hordered, -, hmem⟩ :=
    exists_listing_exact hfew hquery settings
  cases hasked.symm.trans hfiles
  refine ⟨hfew, hquery, listed, hlisted, hordered, ?_, ?_⟩
  · refine (hmem _).mpr ⟨⟨⟨1⟩, ⟨1⟩, some ⟨1⟩⟩, by decide +kernel, by decide +kernel, .inr ⟨rfl, ?_⟩⟩
    exact ⟨.any ⟨2⟩, by decide +kernel, by decide +kernel, rfl⟩
  · refine (hmem _).mpr ⟨⟨⟨1⟩, ⟨1⟩, some ⟨1⟩⟩, by decide +kernel, by decide +kernel, .inl ?_⟩
    exact ⟨by decide +kernel, by decide +kernel⟩

end Store

end TagBase
