import TagBase.Proofs.Engine.Pairs

namespace TagBase

namespace Store

theorem compile_tagged {store : Store} {name : String} {tag : Tag}
    (htag : store.catalog.tags.find? name = some tag) :
    ∃ compiled, store.compile (.tagged name) = .ok compiled := by
  rw [compile, Query.compile_tagged htag]
  exact ⟨_, rfl⟩

theorem compile_valued_cases {store : Store} {name : String} {tag : Tag}
    (htag : store.catalog.tags.find? name = some tag) {op : Operator} (hop : op ≠ .ne)
    (literal : String) :
    (∃ compiled, store.compile (.valued name op literal) = .ok compiled) ∨
      op = .eq ∧ store.compile (.valued name op literal) = .error (.unknownValue literal) ∧
        store.catalog.valuesMatching op literal = [] := by
  rw [compile, Query.compile_valued htag hop, Query.valueClosure_eq]
  split
  · rename_i hnone
    exact .inr ⟨hnone.1, rfl, hnone.2⟩
  · exact .inl ⟨_, rfl⟩

theorem compile_both {store : Store} {left : Query} {first : CompiledQuery}
    (h : store.compile left = .ok first) (right : Query) :
    store.compile (.both left right) =
      (store.compile right).map fun second =>
        ⟨.both first.matcher second.matcher, second.graph⟩ := by
  rw [compile, Query.compile, (compile_eq_ok_iff.mp h).1, compile]
  cases right.compile store.catalog store.ruleGraph <;> rfl

theorem mem_listedPairs_iff_satisfies {store : Store} {settings : Settings}
    (hsettings : settings.listImplied = true) {query : Query} {compiled : CompiledQuery}
    (h : store.compile query = .ok compiled) {pair : Pair} :
    pair ∈ store.listedPairs List.filter settings compiled ↔
      ∃ fact ∈ store.facts, store.Satisfies fact.file query ∧
        pair ∈ store.ruleGraph.closure fact.pair := by
  simp only [mem_listedPairs_iff h, mem_matchingFiles_iff h, hsettings, true_and,
    RuleGraph.eq_or_mem_closure_iff]

theorem exists_satisfies_both_iff {store : Store} {query leaf : Query} {motive : Fact → Prop}
    (hleaf : ∀ facts, leaf.Holds store.catalog store.ruleGraph facts ↔
      ∃ fact ∈ facts, motive fact) :
    (∃ file, store.Satisfies file (.both query leaf)) ↔
      ∃ fact ∈ store.facts, store.Satisfies fact.file query ∧ motive fact := by
  constructor
  · rintro ⟨file, hfile, hquery, hholds⟩
    obtain ⟨fact, hfact, hmotive⟩ := (hleaf _).mp hholds
    obtain ⟨hmem, heq⟩ := List.mem_filter.mp hfact
    obtain rfl : fact.file = file := of_decide_eq_true heq
    exact ⟨fact, hmem, ⟨hfile, hquery⟩, hmotive⟩
  · rintro ⟨fact, hfact, ⟨hfile, hquery⟩, hmotive⟩
    refine ⟨fact.file, hfile, hquery, (hleaf _).mpr ⟨fact, ?_, hmotive⟩⟩
    exact List.mem_filter.mpr ⟨hfact, by simp⟩

section Joined

variable {store : Store} {settings : Settings} (hsettings : settings.listImplied = true)
  {query : Query} {compiled : CompiledQuery} (hquery : store.compile query = .ok compiled)
  {name : String} {tag : Tag} (htag : store.catalog.tags.find? name = some tag)

include hsettings hquery htag

theorem exists_satisfies_tagged_iff :
    (∃ file, store.Satisfies file (.both query (.tagged name))) ↔
      ∃ pair ∈ store.listedPairs List.filter settings compiled, pair.tag = tag.id := by
  rw [exists_satisfies_both_iff (motive := fun fact => fact.Implies store.ruleGraph tag.id)]
  · simp only [mem_listedPairs_iff_satisfies hsettings hquery, Fact.Implies]
    constructor
    · rintro ⟨fact, hfact, hfile, pair, hpair, heq⟩
      exact ⟨pair, ⟨fact, hfact, hfile, hpair⟩, heq⟩
    · rintro ⟨pair, ⟨fact, hfact, hfile, hpair⟩, heq⟩
      exact ⟨fact, hfact, hfile, pair, hpair, heq⟩
  · intro facts
    simp only [Query.Holds, htag, Option.some.injEq, exists_eq_left']

theorem exists_satisfies_valued_iff {op : Operator} (hop : op ≠ .ne) (literal : String) :
    (∃ file, store.Satisfies file (.both query (.valued name op literal))) ↔
      ∃ value ∈ store.catalog.values.records, op.matchesNames value.name literal = true ∧
        Pair.exact tag.id value.id ∈ store.listedPairs List.filter settings compiled := by
  rw [exists_satisfies_both_iff
    (motive := fun fact => fact.ImpliesValue store.catalog store.ruleGraph tag.id op literal)]
  · simp only [mem_listedPairs_iff_satisfies hsettings hquery, Fact.ImpliesValue]
    constructor
    · rintro ⟨fact, hfact, hfile, value, hvalue, hmatches, hpair⟩
      exact ⟨value, hvalue, hmatches, fact, hfact, hfile, hpair⟩
    · rintro ⟨value, hvalue, hmatches, fact, hfact, hfile, hpair⟩
      exact ⟨fact, hfact, hfile, value, hvalue, hmatches, hpair⟩
  · intro facts
    simp only [Query.Holds, htag, Option.some.injEq, exists_eq_left', hop, if_false]

end Joined

/-- A listing with implied pairs shows a tag, or a value of it, just when the query joined to a
further one for that tag, or for that value, finds a file. -/
theorem listing_iff_files {store : Store} (hstore : store.Reachable) {settings : Settings}
    (hsettings : settings.listImplied = true) {query : Query}
    (hquery : (store.compile query).isOk = true) {name : String} {tag : Tag}
    (htag : store.catalog.tags.find? name = some tag) :
    ∃ listed, store.ask settings query .pairs = .ok (.pairs listed) ∧
      (∃ files, store.ask settings (.both query (.tagged name)) .files = .ok (.files files) ∧
        ((∃ entry ∈ listed, entry.tag = tag) ↔ ∃ file, file ∈ files)) ∧
      ∀ op literal, op ≠ .ne →
        (∃ files,
          store.ask settings (.both query (.valued name op literal)) .files = .ok (.files files) ∧
            ((∃ entry ∈ listed, entry.Shows tag op literal) ↔ ∃ file, file ∈ files)) ∨
          op = .eq ∧
            store.ask settings (.both query (.valued name op literal)) .files =
              .error (.unknownValue literal) ∧
            ¬ ∃ entry ∈ listed, entry.Shows tag op literal := by
  obtain ⟨compiled, hcompile⟩ := exists_eq_ok_of_isOk hquery
  obtain ⟨listed, -, hanswer, hlisted⟩ := hstore.grounded.exists_ask_pairs hcompile settings
  have hknows : ∀ pair ∈ store.listedPairs List.filter settings compiled,
      store.catalog.Knows pair :=
    fun _ => hstore.grounded.knows_of_mem_listedPairs (fun _ _ => rfl) .refl hcompile
  have hget := Registry.get?_of_find? htag
  refine ⟨listed, hanswer, ?_, ?_⟩
  · obtain ⟨leaf, hleaf⟩ := compile_tagged htag
    have hboth := compile_both hcompile (.tagged name)
    rw [hleaf] at hboth
    refine ⟨_, ask_files hboth settings, ?_⟩
    simp only [mem_matchingFiles_iff hboth]
    rw [exists_listed_tag_iff hlisted hknows hget,
      exists_satisfies_tagged_iff hsettings hcompile htag]
  · intro op literal hop
    rw [exists_shows_iff hlisted hknows hget]
    have hboth := compile_both hcompile (.valued name op literal)
    rcases compile_valued_cases htag hop literal with ⟨leaf, hleaf⟩ | ⟨heq, hleaf, hnone⟩
    · rw [hleaf] at hboth
      refine .inl ⟨_, ask_files hboth settings, ?_⟩
      simp only [mem_matchingFiles_iff hboth]
      rw [exists_satisfies_valued_iff hsettings hcompile htag hop]
    · rw [hleaf] at hboth
      refine .inr ⟨heq, by rw [ask, hboth]; rfl, ?_⟩
      rintro ⟨value, hvalue, hmatches, -⟩
      exact List.filter_eq_nil_iff.mp hnone value hvalue hmatches

theorem listing_iff_files_kernel :
    let store := empty.after [.createTag "os", .createTag "kernel", .createValue "linux",
      .createValue "6", .addRule ⟨.exact ⟨1⟩ ⟨1⟩, .exact ⟨2⟩ ⟨2⟩⟩, .addRule ⟨.any ⟨2⟩, .any ⟨1⟩⟩,
      .insertFact ⟨⟨1⟩, ⟨1⟩, some ⟨1⟩⟩]
    let settings : Settings := ⟨true, true, 0⟩
    store.Reachable ∧ settings.listImplied = true ∧
      (store.compile (.tagged "os")).isOk = true ∧
      store.catalog.tags.find? "kernel" = some ⟨⟨2⟩, "kernel"⟩ ∧
      ∃ listed, store.ask settings (.tagged "os") .pairs = .ok (.pairs listed) ∧
        ∃ entry ∈ listed, entry.Shows ⟨⟨2⟩, "kernel"⟩ .lt "10" := by
  intro store settings
  have hstore : store.Reachable := ⟨_, rfl⟩
  have hsettings : settings.listImplied = true := rfl
  have hquery : (store.compile (.tagged "os")).isOk = true := by decide +kernel
  have htag : store.catalog.tags.find? "kernel" = some ⟨⟨2⟩, "kernel"⟩ := by decide +kernel
  have hasked : store.ask settings (.both (.tagged "os") (.valued "kernel" .lt "10")) .files =
      .ok (.files (.ofList [⟨1⟩])) := by decide +kernel
  obtain ⟨listed, hlisted, -, hvalued⟩ := listing_iff_files hstore hsettings hquery htag
  refine ⟨hstore, hsettings, hquery, htag, listed, hlisted, ?_⟩
  rcases hvalued .lt "10" (by decide) with ⟨files, hfiles, hiff⟩ | ⟨heq, -⟩
  · rw [hasked] at hfiles
    cases hfiles
    exact hiff.mpr ⟨⟨1⟩, by decide +kernel⟩
  · exact absurd heq (by decide)

end Store

end TagBase
