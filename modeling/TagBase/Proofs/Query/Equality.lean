import TagBase.Proofs.Query.Terms
import TagBase.Proofs.Store.History

namespace TagBase

theorem compareNames_of_numbers {a b : String} {number bound : Binary64}
    (ha : Decimal.read? a = some number) (hb : Decimal.read? b = some bound) :
    compareNames a b = compare number bound := by
  rw [compareNames, ha, hb]

theorem compareNames_of_texts {a b : String}
    (h : Decimal.read? a = none ∨ Decimal.read? b = none) : compareNames a b = compare a b := by
  rw [compareNames.eq_def]
  split
  · rename_i ha hb
    simp [ha, hb] at h
  · rfl

theorem compareNames_cases (a b : String) :
    (∃ number bound, Decimal.read? a = some number ∧ Decimal.read? b = some bound) ∨
      Decimal.read? a = none ∨ Decimal.read? b = none := by
  cases Decimal.read? a <;> cases Decimal.read? b <;> simp

theorem compareNames_swap (a b : String) : compareNames a b = (compareNames b a).swap := by
  rcases compareNames_cases a b with ⟨number, bound, ha, hb⟩ | htext
  · rw [compareNames_of_numbers ha hb, compareNames_of_numbers hb ha]
    exact Std.OrientedCmp.eq_swap
  · rw [compareNames_of_texts htext, compareNames_of_texts htext.symm]
    exact Std.OrientedCmp.eq_swap

theorem compareNames_eq_iff {a b : String} :
    compareNames a b = .eq ↔
      a = b ∨ ∃ number, Decimal.read? a = some number ∧ Decimal.read? b = some number := by
  rcases compareNames_cases a b with ⟨number, bound, ha, hb⟩ | htext
  · rw [compareNames_of_numbers ha hb, Std.LawfulEqOrd.compare_eq_iff_eq, ha, hb]
    constructor
    · rintro rfl
      exact .inr ⟨number, rfl, rfl⟩
    · rintro (rfl | ⟨_, hnumber, hbound⟩)
      · exact Option.some.inj (ha.symm.trans hb)
      · exact Option.some.inj (hnumber.trans hbound.symm)
  · rw [compareNames_of_texts htext, Std.LawfulEqOrd.compare_eq_iff_eq]
    refine ⟨.inl, fun h => h.resolve_right ?_⟩
    rintro ⟨_, hnumber, hbound⟩
    simp [hnumber, hbound] at htext

theorem equivalence_compareNames : Equivalence fun a b => compareNames a b = .eq where
  refl _ := compareNames_eq_iff.mpr (.inl rfl)
  symm h := by rw [compareNames_swap, h, Ordering.swap]
  trans hab hbc := by
    rw [compareNames_eq_iff] at hab hbc ⊢
    rcases hab with rfl | ⟨number, ha, hb⟩
    · exact hbc
    rcases hbc with rfl | ⟨other, hother, hc⟩
    · exact .inr ⟨number, ha, hb⟩
    · cases hb.symm.trans hother
      exact .inr ⟨number, ha, hc⟩

namespace Query

variable {catalog : Catalog} {graph : RuleGraph} {left right : String}

theorem valuesMatching_congr (h : compareNames left right = .eq) :
    catalog.valuesMatching .eq left = catalog.valuesMatching .eq right := by
  refine List.filter_congr fun value _ => ?_
  have hiff : compareNames value.name left = .eq ↔ compareNames value.name right = .eq :=
    ⟨fun hleft => equivalence_compareNames.trans hleft h,
      fun hright => equivalence_compareNames.trans hright (equivalence_compareNames.symm h)⟩
  rw [Bool.eq_iff_iff]
  simpa [Operator.matchesNames, Operator.holds] using hiff

theorem valueClosure_alike (tag : Tag) (h : compareNames left right = .eq) :
    (∃ pairs, valueClosure catalog graph tag .eq left = .ok pairs ∧
      valueClosure catalog graph tag .eq right = .ok pairs) ∨
    (valueClosure catalog graph tag .eq left = .error (.unknownValue left) ∧
      valueClosure catalog graph tag .eq right = .error (.unknownValue right)) := by
  rw [valueClosure_eq, valueClosure_eq, valuesMatching_congr h]
  split
  · exact .inr ⟨rfl, rfl⟩
  · exact .inl ⟨_, rfl, rfl⟩

theorem compile_of_unknown_tag {name : String} (hnone : catalog.tags.find? name = none)
    (op : Operator) (literal : String) :
    compile catalog graph (.valued name op literal) = .error (.unknownTag name) := by
  rw [compile_valued_eq_error_iff, fault?, if_pos hnone]

theorem compile_alike {name : String} {tag : Tag} (htag : catalog.tags.find? name = some tag)
    {op : Operator} (hop : op = .eq ∨ op = .ne) (h : compareNames left right = .eq) :
    (∃ matcher, compile catalog graph (.valued name op left) = .ok matcher ∧
      compile catalog graph (.valued name op right) = .ok matcher) ∨
    (compile catalog graph (.valued name op left) = .error (.unknownValue left) ∧
      compile catalog graph (.valued name op right) = .error (.unknownValue right)) := by
  have hcompile : ∃ test : PairSet → FactTest, ∀ literal,
      compile catalog graph (.valued name op literal) =
        (valueClosure catalog graph tag .eq literal).map fun pairs => .someFact (test pairs) := by
    rcases hop with rfl | rfl
    · exact ⟨_, compile_valued htag (by decide)⟩
    · exact ⟨_, compile_valued_ne htag⟩
  obtain ⟨test, hcompile⟩ := hcompile
  rw [hcompile, hcompile]
  rcases valueClosure_alike tag h with ⟨pairs, hleft, hright⟩ | ⟨hleft, hright⟩
  · rw [hleft, hright]
    exact .inl ⟨_, rfl, rfl⟩
  · rw [hleft, hright]
    exact .inr ⟨rfl, rfl⟩

theorem exists_compile_of_known_value {name : String} {tag : Tag}
    (htag : catalog.tags.find? name = some tag) {value : Value}
    (hvalue : value ∈ catalog.values.records) :
    ∃ matcher, compile catalog graph (.valued name .eq value.name) = .ok matcher := by
  have hmatches : catalog.valuesMatching .eq value.name ≠ [] := by
    refine List.ne_nil_of_mem (List.mem_filter.mpr ⟨hvalue, ?_⟩)
    rw [Operator.matchesNames, equivalence_compareNames.refl]
    rfl
  rw [compile_valued htag (by decide), valueClosure_eq, if_neg fun h => hmatches h.2]
  exact ⟨_, rfl⟩

/-- To compare names the other way round turns the outcome round, and equality of names is an
equivalence. So two equal literals make the same of an equality, and of an inequality: one matcher,
or two reports that no known value is equal to them; and no known value goes without an equal one.
Only an unknown tag comes before this. -/
theorem equal_literals_compile_alike (store : Store) (name : String) :
    (∀ a b, compareNames a b = (compareNames b a).swap) ∧
    (Equivalence fun a b => compareNames a b = .eq) ∧
    (∀ left right, compareNames left right = .eq → ∀ op, op = .eq ∨ op = .ne →
      let first := compile store.catalog store.ruleGraph (.valued name op left)
      let second := compile store.catalog store.ruleGraph (.valued name op right)
      (∃ matcher, first = .ok matcher ∧ second = .ok matcher) ∨
      (first = .error (.unknownValue left) ∧ second = .error (.unknownValue right)) ∨
      (store.catalog.tags.find? name = none ∧
        first = .error (.unknownTag name) ∧ second = .error (.unknownTag name))) ∧
    ∀ value ∈ store.catalog.values.records,
      let own := compile store.catalog store.ruleGraph (.valued name .eq value.name)
      (∃ matcher, own = .ok matcher) ∨
      (store.catalog.tags.find? name = none ∧ own = .error (.unknownTag name)) := by
  refine ⟨compareNames_swap, equivalence_compareNames, ?_, ?_⟩
  · intro left right h op hop first second
    cases htag : store.catalog.tags.find? name with
    | none =>
        exact .inr (.inr ⟨rfl, compile_of_unknown_tag htag op left,
          compile_of_unknown_tag htag op right⟩)
    | some tag => exact (compile_alike htag hop h).imp_right .inl
  · intro value hvalue own
    cases htag : store.catalog.tags.find? name with
    | none => exact .inr ⟨rfl, compile_of_unknown_tag htag .eq value.name⟩
    | some tag => exact .inl (exists_compile_of_known_value htag hvalue)

theorem equal_literals_compile_alike_rating :
    let store := Store.empty.after [.createTag "rating", .createValue "5.0"]
    compareNames "5" "05e0" = .eq ∧
      ∃ matcher,
        compile store.catalog store.ruleGraph (.valued "rating" .ne "5") = .ok matcher ∧
        compile store.catalog store.ruleGraph (.valued "rating" .ne "05e0") = .ok matcher := by
  intro store
  have hequal : compareNames "5" "05e0" = .eq := by decide +kernel
  have hok :
      (compile store.catalog store.ruleGraph (.valued "rating" .ne "5")).isOk = true := by
    decide +kernel
  obtain ⟨matcher, hmatcher⟩ := exists_eq_ok_of_isOk hok
  obtain ⟨-, -, halike, -⟩ := equal_literals_compile_alike store "rating"
  refine ⟨hequal, ?_⟩
  rcases halike "5" "05e0" hequal .ne (.inr rfl) with hsame | ⟨herror, -⟩ | ⟨-, herror, -⟩
  · exact hsame
  · cases hmatcher.symm.trans herror
  · cases hmatcher.symm.trans herror

end Query

end TagBase
