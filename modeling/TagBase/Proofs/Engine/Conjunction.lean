import TagBase.Proofs.Engine.Pairs
import TagBase.Proofs.Query.Blank
import TagBase.Proofs.Query.Joining

namespace TagBase

namespace OrderedSet

variable {α : Type} [Ord α] [DecidableEq α]

/-- The elements that two sets have in common. -/
def inter (s t : OrderedSet α) : OrderedSet α := s.filter fun a => decide (a ∈ t)

@[simp] theorem mem_inter {a : α} {s t : OrderedSet α} : a ∈ s.inter t ↔ a ∈ s ∧ a ∈ t := by
  simp [inter]

end OrderedSet

namespace Store

variable {store : Store}

theorem compile_eq_error_iff {query : Query} {error : Error} :
    store.compile query = .error error ↔
      query.terms.findSome? (Query.fault? store.catalog) = some error := by
  rw [compile, bind_eq_error_iff, Query.compile_eq_error_iff]
  simp [pure, Except.pure]

theorem exists_compile_iff {query : Query} :
    (∃ compiled, store.compile query = .ok compiled) ↔
      ∀ term ∈ query.terms, term.fault? store.catalog = none := by
  have hmatcher : (∃ matcher, query.compile store.catalog store.ruleGraph = .ok matcher) ↔ _ :=
    Query.exists_compile_iff
  rw [← hmatcher]
  constructor
  · rintro ⟨compiled, hcompile⟩
    exact ⟨compiled.matcher, (compile_eq_ok_iff.mp hcompile).1⟩
  · rintro ⟨matcher, hmatcher⟩
    exact ⟨⟨matcher, store.ruleGraph⟩, compile_eq_ok_iff.mpr ⟨hmatcher, rfl⟩⟩

theorem isOk_compile_iff {query : Query} :
    (store.compile query).isOk = true ↔
      ∀ term ∈ query.terms, term.fault? store.catalog = none := by
  rw [← exists_compile_iff]
  cases store.compile query <;> simp [Except.isOk, Except.toBool]

theorem satisfies_iff_forall_terms {file : FileId} {query : Query} :
    store.Satisfies file query ↔
      (∃ fact ∈ store.facts, fact.file = file) ∧
        ∀ term ∈ query.terms, term.Holds store.catalog store.ruleGraph
          (store.facts.toList.filter fun fact => fact.file = file) := by
  rw [Satisfies, Query.holds_iff_forall_terms]

theorem run_congr_holds {first second : CompiledQuery}
    (hholds : first.matcher.holds = second.matcher.holds) (hgraph : first.graph = second.graph)
    (settings : Settings) (projection : Projection) :
    store.run settings first projection = store.run settings second projection := by
  have hgroups : store.matchingGroups List.filter settings first =
      store.matchingGroups List.filter settings second := by
    rw [matchingGroups_eq fun _ _ => rfl, matchingGroups_eq fun _ _ => rfl, Matcher.select,
      Matcher.select, hholds]
  cases projection with
  | files => rw [run, run, runWith, runWith, matchingFiles_eq, matchingFiles_eq, hgroups]
  | pairs =>
      rw [run, run, runWith, runWith, matchingPairs, matchingPairs, hgroups, hgraph]

theorem holds_congr_terms {left right : Query}
    (h : ∀ term, term ∈ left.terms ↔ term ∈ right.terms) {first second : CompiledQuery}
    (hleft : store.compile left = .ok first) (hright : store.compile right = .ok second) :
    first.matcher.holds = second.matcher.holds := by
  funext facts
  rw [Bool.eq_iff_iff, Query.holds_iff_of_compile (compile_eq_ok_iff.mp hleft).1,
    Query.holds_iff_of_compile (compile_eq_ok_iff.mp hright).1, Query.holds_iff_forall_terms,
    Query.holds_iff_forall_terms]
  simp only [h]

theorem Grounded.exists_ask (hstore : store.Grounded) {query : Query} {compiled : CompiledQuery}
    (h : store.compile query = .ok compiled) (settings : Settings) (projection : Projection) :
    ∃ answer, store.ask settings query projection = .ok answer := by
  cases projection with
  | files => exact ⟨_, ask_files h settings⟩
  | pairs =>
      obtain ⟨listed, -, hlisted, -⟩ := hstore.exists_ask_pairs h settings
      exact ⟨_, hlisted⟩

/-- Of two queries with the same terms, however these are ordered, nested and repeated, both compile
or neither does; and if they do, both get the same answer. -/
theorem exists_answer_of_same_terms (hstore : store.Reachable) (settings : Settings)
    {left right : Query} (h : ∀ term, term ∈ left.terms ↔ term ∈ right.terms) :
    ((store.compile left).isOk = true ↔ (store.compile right).isOk = true) ∧
      ((store.compile left).isOk = true → ∀ projection, ∃ answer,
        store.ask settings left projection = .ok answer ∧
          store.ask settings right projection = .ok answer) := by
  have hcompiles : (store.compile left).isOk = true ↔ (store.compile right).isOk = true := by
    rw [isOk_compile_iff, isOk_compile_iff]
    simp only [h]
  refine ⟨hcompiles, fun hok projection => ?_⟩
  obtain ⟨first, hleft⟩ := exists_eq_ok_of_isOk hok
  obtain ⟨second, hright⟩ := exists_eq_ok_of_isOk (hcompiles.mp hok)
  obtain ⟨answer, hanswer⟩ := hstore.grounded.exists_ask hleft settings projection
  have hgraph : first.graph = second.graph :=
    (compile_eq_ok_iff.mp hleft).2.trans (compile_eq_ok_iff.mp hright).2.symm
  refine ⟨answer, hanswer, ?_⟩
  rw [ask_eq_run hright, ← run_congr_holds (holds_congr_terms h hleft hright) hgraph,
    ← ask_eq_run hleft, hanswer]

theorem exists_answer_of_same_terms_unix :
    let store := empty.after [.createTag "os", .createTag "unix", .createTag "size",
      .createValue "linux", .createValue "9", .addRule ⟨.exact ⟨1⟩ ⟨1⟩, .any ⟨2⟩⟩,
      .insertFact ⟨⟨1⟩, ⟨1⟩, some ⟨1⟩⟩, .insertFact ⟨⟨1⟩, ⟨3⟩, some ⟨2⟩⟩,
      .insertFact ⟨⟨2⟩, ⟨1⟩, some ⟨1⟩⟩]
    let left : Query := .both (.valued "size" .lt "10") (.tagged "unix")
    let right : Query :=
      .both (.tagged "unix") (.both .everything (.both (.valued "size" .lt "10") (.tagged "unix")))
    store.Reachable ∧ (∀ term, term ∈ left.terms ↔ term ∈ right.terms) ∧
      (store.compile left).isOk = true ∧
      store.ask .default right .files = .ok (.files (.ofList [⟨1⟩])) ∧
      ∃ answer, store.ask .default left .pairs = .ok answer ∧
        store.ask .default right .pairs = .ok answer := by
  intro store left right
  have hstore : store.Reachable := ⟨_, rfl⟩
  have hterms : ∀ term, term ∈ left.terms ↔ term ∈ right.terms := by
    intro term
    simp [left, right, Query.terms, or_comm]
  have hok : (store.compile left).isOk = true := by decide +kernel
  have hanswers := (exists_answer_of_same_terms hstore .default hterms).2 hok
  have hasked : store.ask .default left .files = .ok (.files (.ofList [⟨1⟩])) := by decide +kernel
  obtain ⟨files, hleft, hright⟩ := hanswers .files
  cases hasked.symm.trans hleft
  exact ⟨hstore, hterms, hok, hright, hanswers .pairs⟩

theorem askText_files_eq_ok_iff {settings : Settings} {text : String} {answer : Answer} :
    store.askText settings text .files = .ok answer ↔
      ∃ query compiled, Query.read text = .ok query ∧ store.compile query = .ok compiled ∧
        .files (store.matchingFiles List.filter settings compiled) = answer := by
  rw [askText, bind_eq_ok_iff]
  constructor
  · rintro ⟨query, hread, hask⟩
    obtain ⟨compiled, hcompile, hrun⟩ := bind_eq_ok_iff.mp hask
    exact ⟨query, compiled, hread, hcompile, Except.ok.inj hrun⟩
  · rintro ⟨query, compiled, hread, hcompile, rfl⟩
    exact ⟨query, hread, ask_files hcompile settings⟩

theorem askText_files_of_terms_append {settings : Settings} {text : String}
    {query left right : Query} {first second : CompiledQuery}
    (hleft : store.compile left = .ok first) (hright : store.compile right = .ok second)
    (hread : Query.read text = .ok query) (hterms : query.terms = left.terms ++ right.terms) :
    store.askText settings text .files =
      .ok (.files ((store.matchingFiles List.filter settings first).inter
        (store.matchingFiles List.filter settings second))) := by
  have hfaults : ∀ term ∈ query.terms, term.fault? store.catalog = none := by
    rw [hterms, List.forall_mem_append]
    exact ⟨exists_compile_iff.mp ⟨first, hleft⟩, exists_compile_iff.mp ⟨second, hright⟩⟩
  obtain ⟨compiled, hcompile⟩ := exists_compile_iff.mpr hfaults
  refine askText_files_eq_ok_iff.mpr ⟨query, compiled, hread, hcompile, ?_⟩
  congr 1
  apply OrderedSet.ext_mem
  intro file
  rw [OrderedSet.mem_inter, mem_matchingFiles_iff hcompile, mem_matchingFiles_iff hleft,
    mem_matchingFiles_iff hright, satisfies_iff_forall_terms, satisfies_iff_forall_terms,
    satisfies_iff_forall_terms, hterms, List.forall_mem_append]
  exact and_and_left

/-- Two texts that are answered with files are answered, when joined by a space, with the files that
answer both; also with an `and` between them if neither is blank. -/
theorem askText_files_joined {settings : Settings} {first second : String}
    {files others : OrderedSet FileId}
    (hfirst : store.askText settings first .files = .ok (.files files))
    (hsecond : store.askText settings second .files = .ok (.files others)) :
    store.askText settings (first ++ " " ++ second) .files = .ok (.files (files.inter others)) ∧
      (first.toList.all Text.isBlank = false → second.toList.all Text.isBlank = false →
        store.askText settings (first ++ " and " ++ second) .files =
          .ok (.files (files.inter others))) := by
  obtain ⟨left, compiled, hreadFirst, hleft, hfiles⟩ := askText_files_eq_ok_iff.mp hfirst
  obtain ⟨right, compiled', hreadSecond, hright, hothers⟩ := askText_files_eq_ok_iff.mp hsecond
  cases hfiles
  cases hothers
  constructor
  · obtain ⟨query, hread, hterms⟩ := Query.exists_read_append hreadFirst hreadSecond
    exact askText_files_of_terms_append hleft hright hread hterms
  · intro hblankFirst hblankSecond
    have hne := Query.ne_everything_of_read hreadFirst hblankFirst
    have hne' := Query.ne_everything_of_read hreadSecond hblankSecond
    obtain ⟨query, hread, hterms⟩ := Query.exists_read_append_and hreadFirst hreadSecond hne hne'
    exact askText_files_of_terms_append hleft hright hread hterms

theorem askText_files_joined_systems :
    let store := empty.after [.createTag "os", .createTag "road trip", .createValue "linux",
      .createValue "mac", .insertFact ⟨⟨1⟩, ⟨1⟩, some ⟨1⟩⟩, .insertFact ⟨⟨1⟩, ⟨2⟩, none⟩,
      .insertFact ⟨⟨2⟩, ⟨1⟩, some ⟨1⟩⟩, .insertFact ⟨⟨3⟩, ⟨2⟩, none⟩]
    store.askText .default "os=linux" .files = .ok (.files (.ofList [⟨1⟩, ⟨2⟩])) ∧
      store.askText .default "(\"road trip\")" .files = .ok (.files (.ofList [⟨1⟩, ⟨3⟩])) ∧
      store.askText .default "os=linux (\"road trip\")" .files = .ok (.files (.ofList [⟨1⟩])) ∧
      store.askText .default "os=linux and (\"road trip\")" .files =
        .ok (.files (.ofList [⟨1⟩])) := by
  intro store
  have hfirst : store.askText .default "os=linux" .files = .ok (.files (.ofList [⟨1⟩, ⟨2⟩])) := by
    decide +kernel
  have hsecond : store.askText .default "(\"road trip\")" .files =
      .ok (.files (.ofList [⟨1⟩, ⟨3⟩])) := by decide +kernel
  have hcommon : (OrderedSet.ofList [⟨1⟩, ⟨2⟩] : OrderedSet FileId).inter (.ofList [⟨1⟩, ⟨3⟩]) =
      .ofList [⟨1⟩] := by decide
  obtain ⟨hspace, hand⟩ := askText_files_joined hfirst hsecond
  rw [hcommon] at hspace hand
  exact ⟨hfirst, hsecond, hspace, hand (by decide +kernel) (by decide +kernel)⟩

end Store

end TagBase
