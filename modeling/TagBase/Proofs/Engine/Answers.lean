import TagBase.Proofs.Engine.Candidates
import TagBase.Proofs.Query.Meaning

namespace TagBase

namespace Store

/-- A file satisfies a query when it carries a fact and its facts are as the query asks. -/
def Satisfies (store : Store) (file : FileId) (query : Query) : Prop :=
  (∃ fact ∈ store.facts, fact.file = file) ∧
    query.Holds store.catalog store.ruleGraph
      (store.facts.toList.filter fun fact => fact.file = file)

theorem compile_eq_ok_iff {store : Store} {query : Query} {compiled : CompiledQuery} :
    store.compile query = .ok compiled ↔
      query.compile store.catalog store.ruleGraph = .ok compiled.matcher ∧
        compiled.graph = store.ruleGraph := by
  obtain ⟨matcher, graph⟩ := compiled
  rw [compile, bind_eq_ok_iff]
  constructor
  · rintro ⟨_, hmatcher, hok⟩
    cases hok
    exact ⟨hmatcher, rfl⟩
  · rintro ⟨hmatcher, rfl⟩
    exact ⟨matcher, hmatcher, rfl⟩

theorem matches_iff_satisfies {store : Store} {query : Query} {compiled : CompiledQuery}
    (h : store.compile query = .ok compiled) {file : FileId} :
    store.Matches compiled.matcher file ↔ store.Satisfies file query := by
  have hmatcher := (compile_eq_ok_iff.mp h).1
  exact and_congr_right fun _ => Query.holds_iff_of_compile hmatcher _

theorem mem_matchingFiles_iff {store : Store} {settings : Settings} {query : Query}
    {compiled : CompiledQuery} (h : store.compile query = .ok compiled) {file : FileId} :
    file ∈ store.matchingFiles List.filter settings compiled ↔ store.Satisfies file query := by
  rw [mem_matchingFiles_iff_matches fun _ _ => rfl, matches_iff_satisfies h]

theorem ask_files {store : Store} {query : Query} {compiled : CompiledQuery}
    (h : store.compile query = .ok compiled) (settings : Settings) :
    store.ask settings query .files =
      .ok (.files (store.matchingFiles List.filter settings compiled)) := by
  rw [ask, h]
  rfl

/-- A query that compiles is answered with the files that satisfy it. -/
theorem exists_files_satisfying {store : Store} {query : Query}
    (h : (store.compile query).isOk = true) (settings : Settings) :
    ∃ files, store.ask settings query .files = .ok (.files files) ∧
      ∀ file, file ∈ files ↔ store.Satisfies file query := by
  obtain ⟨compiled, hcompile⟩ := exists_eq_ok_of_isOk h
  refine ⟨_, ask_files hcompile settings, ?_⟩
  intro file
  exact mem_matchingFiles_iff hcompile

theorem exists_files_satisfying_unix :
    let store := empty.after [.createTag "os", .createTag "unix", .createTag "size",
      .createValue "linux", .createValue "mac", .addRule ⟨.any ⟨1⟩, .any ⟨2⟩⟩,
      .addRule ⟨.any ⟨2⟩, .any ⟨1⟩⟩, .insertFact ⟨⟨1⟩, ⟨1⟩, some ⟨1⟩⟩,
      .insertFact ⟨⟨2⟩, ⟨1⟩, some ⟨2⟩⟩, .insertFact ⟨⟨3⟩, ⟨3⟩, none⟩,
      .insertFact ⟨⟨4⟩, ⟨2⟩, none⟩]
    let query : Query := .both (.tagged "unix") (.valued "os" .ne "mac")
    (store.compile query).isOk = true ∧
      ∀ file, file ∈ OrderedSet.ofList [⟨1⟩, ⟨4⟩] ↔ store.Satisfies file query := by
  intro store query
  have hquery : (store.compile query).isOk = true := by decide +kernel
  refine ⟨hquery, ?_⟩
  obtain ⟨files, hfiles, hsatisfies⟩ := exists_files_satisfying hquery .default
  have hasked : store.ask .default query .files = .ok (.files (.ofList [⟨1⟩, ⟨4⟩])) := by
    decide +kernel
  rw [hasked] at hfiles
  cases hfiles
  exact hsatisfies

end Store

end TagBase
