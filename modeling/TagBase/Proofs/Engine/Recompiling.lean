import TagBase.Proofs.Engine.Conjunction

namespace TagBase

theorem Registry.Sound.find?_of_keptBy {kind : Kind} {registry left : Registry kind}
    (h : registry.Sound) (hleft : left.Sound) (hkept : registry.KeptBy left) {name : String}
    {record : Named kind} (hfind : registry.find? name = some record) :
    left.find? name = some record := by
  obtain ⟨-, rfl⟩ := h.find?_eq_some_iff.mp hfind
  have hid : registry.idOf? record.name = some record.id :=
    (h.idOf?_eq_some_iff record.name record.id).mpr (get?_of_find? hfind)
  have hget : left.get? record.id = some record :=
    (hleft.idOf?_eq_some_iff record.name record.id).mp (hkept _ _ hid)
  exact hleft.find?_eq_some_iff.mpr ⟨(get?_eq_some_iff.mp hget).1, rfl⟩

namespace Query

variable {catalog other : Catalog} {graph : RuleGraph}

theorem valueClosure_of_values (hvalues : other.values = catalog.values) (tag : Tag)
    (op : Operator) (literal : String) :
    valueClosure other graph tag op literal = valueClosure catalog graph tag op literal := by
  have hmatching : other.valuesMatching op literal = catalog.valuesMatching op literal := by
    rw [Catalog.valuesMatching, Catalog.valuesMatching, hvalues]
  rw [valueClosure, valueClosure, hmatching]

theorem compile_of_tags
    (htags : ∀ name tag, catalog.tags.find? name = some tag → other.tags.find? name = some tag)
    (hvalues : other.values = catalog.values) {query : Query} {matcher : Matcher}
    (h : query.compile catalog graph = .ok matcher) :
    query.compile other graph = .ok matcher := by
  induction query generalizing matcher with
  | everything => exact h
  | tagged name | anyValue name =>
      rw [compile, resolveTag_bind_eq_ok_iff] at h ⊢
      obtain ⟨tag, htag, hmatcher⟩ := h
      exact ⟨tag, htags name tag htag, hmatcher⟩
  | valued name op literal =>
      rw [compile, resolveTag_bind_eq_ok_iff] at h ⊢
      obtain ⟨tag, htag, hmatcher⟩ := h
      refine ⟨tag, htags name tag htag, ?_⟩
      simpa only [valueClosure_of_values hvalues] using hmatcher
  | both left right ihleft ihright =>
      rw [compile, bind_eq_ok_iff] at h ⊢
      obtain ⟨first, hleft, hrest⟩ := h
      refine ⟨first, ihleft hleft, ?_⟩
      rw [bind_eq_ok_iff] at hrest ⊢
      obtain ⟨second, hright, hmatcher⟩ := hrest
      exact ⟨second, ihright hright, hmatcher⟩

end Query

namespace Store

/-- No value name is known at the later point that was not known at the earlier one. -/
def NoNewValue (store left : Store) : Prop :=
  ∀ name, store.catalog.values.idOf? name = none → left.catalog.values.idOf? name = none

theorem NoNewValue.of_namesKeptBy {store middle left : Store} (h : store.NoNewValue left)
    (hkept : middle.NamesKeptBy left) : store.NoNewValue middle := by
  intro name hname
  cases hmiddle : middle.catalog.values.idOf? name with
  | none => rfl
  | some id =>
      have hleft := hkept.values name id hmiddle
      rw [h name hname] at hleft
      contradiction

theorem Step.values_eq {store left : Store} (hstep : Step store left) (h : store.NoNewValue left) :
    left.catalog.values = store.catalog.values := by
  cases hstep with
  | @addValue name hname hnew =>
      have hknown := h name hnew
      simp [Registry.idOf?_add] at hknown
  | _ => rfl

theorem Steps.values_eq {store left : Store} (hsteps : Steps store left)
    (h : store.NoNewValue left) : left.catalog.values = store.catalog.values := by
  induction hsteps with
  | refl => rfl
  | @tail middle left _ hstep ih =>
      have hvalues : middle.catalog.values = store.catalog.values :=
        ih (h.of_namesKeptBy hstep.namesKeptBy)
      have hlast : middle.NoNewValue left := by
        intro name hname
        rw [hvalues] at hname
        exact h name hname
      exact (hstep.values_eq hlast).trans hvalues

theorem Steps.compile_eq {store left : Store} (hsteps : Steps store left) (hstore : store.Sound)
    (hleft : left.Sound) (hvalues : store.NoNewValue left) (hrules : left.rules = store.rules)
    {query : Query} {compiled : CompiledQuery} (h : store.compile query = .ok compiled) :
    left.compile query = .ok compiled := by
  obtain ⟨hmatcher, hgraph⟩ := compile_eq_ok_iff.mp h
  have hsame : left.ruleGraph = store.ruleGraph := by rw [ruleGraph, ruleGraph, hrules]
  rw [compile_eq_ok_iff, hsame]
  refine ⟨Query.compile_of_tags ?_ (hsteps.values_eq hvalues) hmatcher, hgraph⟩
  intro name tag htag
  exact hstore.tags.find?_of_keptBy hleft.tags hsteps.namesKeptBy.tags htag

/-- Whatever is done to facts and tags in between, a query compiled earlier is answered as one that
is compiled anew, as long as no value is new and the rules are the same in the end. -/
theorem exists_answer_of_recompiled {earlier later : List Operation} {query : Query}
    {compiled : CompiledQuery} (hfew : Operation.FewNames (earlier ++ later))
    (hcompile : (empty.after earlier).compile query = .ok compiled)
    (hvalues : (empty.after earlier).NoNewValue (empty.after (earlier ++ later)))
    (hrules : (empty.after (earlier ++ later)).rules = (empty.after earlier).rules) :
    let left := empty.after (earlier ++ later)
    left.compile query = .ok compiled ∧
      ∀ settings projection, ∃ answer, left.run settings compiled projection = .ok answer ∧
        left.ask settings query projection = .ok answer := by
  intro left
  have hleft : left.Sound := sound_after hfew
  have hrecompile : left.compile query = .ok compiled :=
    (steps_append earlier later).compile_eq (sound_after hfew.of_append) hleft hvalues hrules
      hcompile
  refine ⟨hrecompile, ?_⟩
  intro settings projection
  obtain ⟨answer, hanswer⟩ := hleft.toGrounded.exists_ask hrecompile settings projection
  exact ⟨answer, by rw [← ask_eq_run hrecompile, hanswer], hanswer⟩

theorem exists_answer_of_recompiled_unix :
    let earlier : List Operation := [.createTag "os", .createTag "unix", .createValue "linux",
      .createValue "mac", .addRule ⟨.exact ⟨1⟩ ⟨1⟩, .any ⟨2⟩⟩, .insertFact ⟨⟨1⟩, ⟨1⟩, some ⟨1⟩⟩,
      .insertFact ⟨⟨2⟩, ⟨1⟩, none⟩]
    let later : List Operation := [.removeRule ⟨.exact ⟨1⟩ ⟨1⟩, .any ⟨2⟩⟩, .createTag "kernel",
      .createValue "linux", .createValue "", .copyFacts ⟨1⟩ ⟨3⟩, .insertFact ⟨⟨4⟩, ⟨9⟩, none⟩,
      .deleteFacts (.ofFile ⟨2⟩), .insertFact ⟨⟨3⟩, ⟨1⟩, some ⟨1⟩⟩, .createTag "os",
      .addRule ⟨.exact ⟨1⟩ ⟨1⟩, .any ⟨2⟩⟩]
    let store := empty.after earlier
    let left := empty.after (earlier ++ later)
    let query : Query := .both (.tagged "os") (.valued "os" .ne "mac")
    Operation.FewNames (earlier ++ later) ∧ store.NoNewValue left ∧
      left.rules = store.rules ∧
      store.ask .default query .files = .ok (.files (.ofList [⟨1⟩, ⟨2⟩])) ∧
      ∃ compiled, store.compile query = .ok compiled ∧
        left.compile query = .ok compiled ∧
        left.run .default compiled .files = .ok (.files (.ofList [⟨1⟩, ⟨3⟩])) := by
  intro earlier later store left query
  have hfew : Operation.FewNames (earlier ++ later) := by
    intro kind
    cases kind <;> decide +kernel
  have hrules : left.rules = store.rules := by decide +kernel
  have hvalues : store.NoNewValue left := by
    have hsame : left.catalog.values = store.catalog.values := by decide +kernel
    intro name hname
    rw [hsame, hname]
  have hquery : (store.compile query).isOk = true := by decide +kernel
  have hasked : left.ask .default query .files = .ok (.files (.ofList [⟨1⟩, ⟨3⟩])) := by
    decide +kernel
  obtain ⟨compiled, hcompile⟩ := exists_eq_ok_of_isOk hquery
  obtain ⟨hrecompile, hanswers⟩ := exists_answer_of_recompiled hfew hcompile hvalues hrules
  obtain ⟨answer, hrun, hanswer⟩ := hanswers .default .files
  cases hasked.symm.trans hanswer
  exact ⟨hfew, hvalues, hrules, by decide +kernel, compiled, hcompile, hrecompile, hrun⟩

end Store

end TagBase
