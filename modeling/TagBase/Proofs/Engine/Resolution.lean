import TagBase.Proofs.Engine.Conjunction

namespace TagBase

namespace Registry

variable {kind : Kind} {registry : Registry kind}

/-- Every name with a number has a record under that number, though not always its own: a record is
replaced when its number is given out again. -/
def Backed (registry : Registry kind) : Prop :=
  ∀ name id, registry.idOf? name = some id → registry.contains id = true

theorem backed_empty : (empty : Registry kind).Backed := by
  intro name id hid
  simp [empty, idOf?] at hid

theorem Backed.add (h : registry.Backed) (name : String) : (registry.add name).Backed := by
  intro other id hid
  rw [idOf?_add] at hid
  split at hid
  · obtain rfl := Option.some.inj hid
    simp [contains, get?_add]
  · exact contains_add (h other id hid) name

theorem Backed.find?_eq_none_iff (h : registry.Backed) {name : String} :
    registry.find? name = none ↔ name ∉ registry.names := by
  rw [← idOf?_eq_none_iff, find?]
  cases hid : registry.idOf? name with
  | none => simp
  | some id =>
      have hget : registry.get? id ≠ none := Option.isSome_iff_ne_none.mp (h name id hid)
      simpa using hget

end Registry

namespace Store

theorem Step.backed_tags {store left : Store} (hstep : Step store left)
    (h : store.catalog.tags.Backed) : left.catalog.tags.Backed := by
  cases hstep with
  | addTag => exact h.add _
  | _ => exact h

theorem Reachable.backed_tags {store : Store} (h : store.Reachable) :
    store.catalog.tags.Backed := by
  obtain ⟨operations, rfl⟩ := h
  exact (steps_after empty operations).keep (motive := fun store => store.catalog.tags.Backed)
    (fun _ _ hstep => hstep.backed_tags) Registry.backed_empty

end Store

namespace Query

def tag? : Query → Option String
  | .tagged name => some name
  | .anyValue name => some name
  | .valued name _ _ => some name
  | _ => none

/-- The literal to which a term asks values to be equal or unequal. -/
def equated? : Query → Option String
  | .valued _ op literal => if op = .eq ∨ op = .ne then some literal else none
  | _ => none

structure Resolved (catalog : Catalog) (term : Query) : Prop where
  tag : ∀ name ∈ term.tag?, name ∈ catalog.tags.names
  value : ∀ literal ∈ term.equated?,
    ∃ value ∈ catalog.values.records, compareNames value.name literal = .eq

/-- Why a term does not find what it needs. Its tag comes before its literal. -/
inductive Unresolved (catalog : Catalog) (term : Query) : Error → Prop
  | tag {name : String} (hname : name ∈ term.tag?) (hunknown : name ∉ catalog.tags.names) :
      Unresolved catalog term (.unknownTag name)
  | value {literal : String} (htag : ∀ name ∈ term.tag?, name ∈ catalog.tags.names)
      (hliteral : literal ∈ term.equated?)
      (hunknown : ∀ value ∈ catalog.values.records, compareNames value.name literal ≠ .eq) :
      Unresolved catalog term (.unknownValue literal)

variable {catalog : Catalog} {term : Query}

theorem valuesMatching_eq_nil_iff {literal : String} :
    catalog.valuesMatching .eq literal = [] ↔
      ∀ value ∈ catalog.values.records, compareNames value.name literal ≠ .eq := by
  simp [Catalog.valuesMatching, Operator.matchesNames, Operator.holds]

section Faults

variable (h : catalog.tags.Backed)

include h

theorem fault?_of_unknown_tag {name : String} (hname : name ∈ term.tag?)
    (hunknown : name ∉ catalog.tags.names) :
    term.fault? catalog = some (.unknownTag name) := by
  have hfind := h.find?_eq_none_iff.mpr hunknown
  cases term with
  | everything | both => contradiction
  | _ =>
      obtain rfl := Option.some.inj hname
      simp [fault?, hfind]

theorem fault?_of_known_tag (htag : ∀ name ∈ term.tag?, name ∈ catalog.tags.names) :
    term.fault? catalog =
      term.equated?.bind fun literal =>
        if catalog.valuesMatching .eq literal = [] then some (.unknownValue literal) else none := by
  have hfind : ∀ name ∈ term.tag?, catalog.tags.find? name ≠ none :=
    fun name hname hnone => h.find?_eq_none_iff.mp hnone (htag name hname)
  cases term with
  | everything | both => rfl
  | tagged name => simp [fault?, equated?, hfind name rfl]
  | anyValue name => simp [fault?, equated?, hfind name rfl]
  | valued name op literal =>
      by_cases hop : op = .eq ∨ op = .ne <;> simp [fault?, equated?, hfind name rfl, hop]

theorem fault?_eq_some_iff {error : Error} :
    term.fault? catalog = some error ↔ term.Unresolved catalog error := by
  by_cases htag : ∀ name ∈ term.tag?, name ∈ catalog.tags.names
  · rw [fault?_of_known_tag h htag, Option.bind_eq_some_iff]
    constructor
    · rintro ⟨literal, hliteral, hfault⟩
      obtain ⟨hunknown, hfault⟩ := Option.ite_none_right_eq_some.mp hfault
      obtain rfl := Option.some.inj hfault
      exact .value htag hliteral (valuesMatching_eq_nil_iff.mp hunknown)
    · rintro (⟨hname, hunknown⟩ | ⟨-, hliteral, hunknown⟩)
      · exact absurd (htag _ hname) hunknown
      · exact ⟨_, hliteral, if_pos (valuesMatching_eq_nil_iff.mpr hunknown)⟩
  · obtain ⟨name, hname, hunknown⟩ : ∃ name ∈ term.tag?, name ∉ catalog.tags.names := by
      simpa using htag
    rw [fault?_of_unknown_tag h hname hunknown, Option.some.injEq]
    constructor
    · rintro rfl
      exact .tag hname hunknown
    · rintro (⟨hother, -⟩ | ⟨hknown, -, -⟩)
      · rw [Option.some.inj (hname.symm.trans hother)]
      · exact absurd (hknown name hname) hunknown

end Faults

theorem resolved_iff_forall_not_unresolved :
    term.Resolved catalog ↔ ∀ error, ¬ term.Unresolved catalog error := by
  constructor
  · rintro h error (⟨hname, hunknown⟩ | ⟨-, hliteral, hunknown⟩)
    · exact hunknown (h.tag _ hname)
    · obtain ⟨value, hvalue, hequal⟩ := h.value _ hliteral
      exact hunknown value hvalue hequal
  · intro h
    have htag : ∀ name ∈ term.tag?, name ∈ catalog.tags.names :=
      fun name hname => Decidable.byContradiction fun hunknown => h _ (.tag hname hunknown)
    refine ⟨htag, ?_⟩
    intro literal hliteral
    by_contra hnone
    exact h _ (.value htag hliteral fun value hvalue hequal => hnone ⟨value, hvalue, hequal⟩)

theorem fault?_eq_none_iff (h : catalog.tags.Backed) :
    term.fault? catalog = none ↔ term.Resolved catalog := by
  rw [Option.eq_none_iff_forall_ne_some, resolved_iff_forall_not_unresolved]
  simp only [ne_eq, fault?_eq_some_iff h]

end Query

namespace Store

/-- A query compiles if all of its terms find in the catalog what they need. If not, the leftmost
term that does not is reported and nothing else. Stores with the same catalog agree on this,
whatever their rules and their facts. -/
theorem compile_reports_first_unresolved {store : Store} (h : store.Reachable) (graph : RuleGraph)
    (query : Query) :
    ((∃ matcher, query.compile store.catalog graph = .ok matcher) ↔
      ∀ term ∈ query.terms, term.Resolved store.catalog) ∧
    (∀ error, query.compile store.catalog graph = .error error ↔
      ∃ earlier term later, query.terms = earlier ++ term :: later ∧
        (∀ other ∈ earlier, other.Resolved store.catalog) ∧
        term.Unresolved store.catalog error) ∧
    ∀ other : Store, other.catalog = store.catalog → ∀ error,
      (other.compile query = .error error ↔ query.compile store.catalog graph = .error error) := by
  have hbacked : store.catalog.tags.Backed := h.backed_tags
  refine ⟨?_, ?_, ?_⟩
  · simp only [Query.exists_compile_iff, Query.fault?_eq_none_iff hbacked]
  · intro error
    rw [Query.compile_eq_error_iff, List.findSome?_eq_some_iff]
    simp only [Query.fault?_eq_some_iff hbacked, Query.fault?_eq_none_iff hbacked]
    constructor
    · rintro ⟨earlier, term, later, hterms, hterm, hearlier⟩
      exact ⟨earlier, term, later, hterms, hearlier, hterm⟩
    · rintro ⟨earlier, term, later, hterms, hearlier, hterm⟩
      exact ⟨earlier, term, later, hterms, hterm, hearlier⟩
  · intro other hcatalog error
    rw [compile_eq_error_iff, Query.compile_eq_error_iff, hcatalog]

theorem compile_reports_first_unresolved_os :
    let operations : List Operation := [.createTag "os", .createValue "linux", .createValue "007"]
    let store := empty.after operations
    store.Reachable ∧
      Query.compile store.catalog store.ruleGraph
          (.both (.both (.tagged "os") (.valued "os" .eq "7.0"))
            (.both (.valued "os" .ne "bsd") (.tagged "shape"))) =
        .error (.unknownValue "bsd") := by
  intro operations store
  have hreachable : store.Reachable := ⟨operations, rfl⟩
  refine ⟨hreachable, ?_⟩
  obtain ⟨-, hreport, -⟩ := compile_reports_first_unresolved hreachable store.ruleGraph
    (.both (.both (.tagged "os") (.valued "os" .eq "7.0"))
      (.both (.valued "os" .ne "bsd") (.tagged "shape")))
  have htag : ∀ name ∈ some "os", name ∈ store.catalog.tags.names := by
    rintro _ ⟨⟩
    decide +kernel
  refine (hreport _).mpr ⟨[.tagged "os", .valued "os" .eq "7.0"], .valued "os" .ne "bsd",
    [.tagged "shape"], rfl, ?_, .value htag rfl (by decide +kernel)⟩
  intro other hother
  simp only [List.mem_cons, List.not_mem_nil, or_false] at hother
  rcases hother with rfl | rfl
  · exact ⟨htag, nofun⟩
  · refine ⟨htag, ?_⟩
    rintro _ ⟨⟩
    exact ⟨⟨⟨2⟩, "007"⟩, by decide +kernel, by decide +kernel⟩

end Store

end TagBase
