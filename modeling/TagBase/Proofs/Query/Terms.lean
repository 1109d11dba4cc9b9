import TagBase.Proofs.Query.Meaning
import TagBase.Proofs.Query.Reading

/-!
Terms: what a query asks for, one tag at a time. A query compiles when none of its terms is at
fault, else the leftmost fault is reported; and it holds when each of its terms does. So only the
terms count, and neither their nesting nor what asks for nothing between them. The terms of a query
that was read are those of its tokens, in their order.
-/

namespace TagBase

theorem exists_eq_ok_iff_eq_none {ε α : Type} {result : Except ε α} {fault : Option ε}
    (h : ∀ error, result = .error error ↔ fault = some error) :
    (∃ a, result = .ok a) ↔ fault = none := by
  rw [Option.eq_none_iff_forall_ne_some]
  simp only [ne_eq, ← h]
  cases result <;> simp

/-- A parenthesis or an `and`, which puts terms together and is part of none. -/
def TokenKind.joinsTerms : TokenKind → Bool
  | .openGroup => true
  | .closeGroup => true
  | .and => true
  | _ => false

namespace Query

/-- The parts of a query that ask for one tag each, from left to right. -/
def terms : Query → List Query
  | .everything => []
  | .tagged tag => [.tagged tag]
  | .anyValue tag => [.anyValue tag]
  | .valued tag op literal => [.valued tag op literal]
  | .both left right => left.terms ++ right.terms

/-- Why a term does not compile. Its tag has to be known, and so has a value equal to the literal
where the term asks for equality or for inequality. -/
def fault? (catalog : Catalog) : Query → Option Error
  | .everything => none
  | .tagged name => if catalog.tags.find? name = none then some (.unknownTag name) else none
  | .anyValue name => if catalog.tags.find? name = none then some (.unknownTag name) else none
  | .valued name op literal =>
      if catalog.tags.find? name = none then some (.unknownTag name)
      else if (op = .eq ∨ op = .ne) ∧ catalog.valuesMatching .eq literal = [] then
        some (.unknownValue literal)
      else none
  | .both _ _ => none

variable {catalog : Catalog} {graph : RuleGraph}

theorem resolveTag_bind_eq_error_iff {α : Type} {name : String} {next : Tag → Except Error α}
    {error : Error} :
    (catalog.resolveTag name >>= next) = .error error ↔
      (catalog.tags.find? name = none ∧ .unknownTag name = error) ∨
        ∃ tag, catalog.tags.find? name = some tag ∧ next tag = .error error := by
  rw [Catalog.resolveTag]
  cases catalog.tags.find? name <;> simp [bind, Except.bind]

theorem valueClosure_eq_error_iff {tag : Tag} {op : Operator} {literal : String} {error : Error} :
    valueClosure catalog graph tag op literal = .error error ↔
      op = .eq ∧ catalog.valuesMatching .eq literal = [] ∧ .unknownValue literal = error := by
  rw [valueClosure_eq]
  split
  · rename_i hnone
    obtain ⟨rfl, hnone⟩ := hnone
    simp [hnone]
  · rename_i hsome
    constructor
    · exact nofun
    · rintro ⟨rfl, hnone, -⟩
      exact absurd ⟨rfl, hnone⟩ hsome

theorem compile_valued_eq_error_iff {name : String} {op : Operator} {literal : String}
    {error : Error} :
    compile catalog graph (.valued name op literal) = .error error ↔
      fault? catalog (.valued name op literal) = some error := by
  rw [compile, resolveTag_bind_eq_error_iff, fault?]
  cases catalog.tags.find? name with
  | none => simp
  | some tag =>
      by_cases hop : op = .ne
      · subst hop
        simp [bind_eq_error_iff, valueClosure_eq_error_iff, pure, Except.pure]
      · simp [hop, bind_eq_error_iff, valueClosure_eq_error_iff, and_assoc, pure, Except.pure]

theorem compile_eq_error_iff {query : Query} {error : Error} :
    query.compile catalog graph = .error error ↔
      query.terms.findSome? (fault? catalog) = some error := by
  induction query generalizing error with
  | everything => simp [compile, terms]
  | tagged name =>
      rw [compile, resolveTag_bind_eq_error_iff]
      simp [terms, fault?, pure, Except.pure]
  | anyValue name =>
      rw [compile, resolveTag_bind_eq_error_iff]
      simp [terms, fault?, pure, Except.pure]
  | valued name op literal =>
      rw [compile_valued_eq_error_iff]
      simp [terms]
  | both left right ihleft ihright =>
      have hleft := exists_eq_ok_iff_eq_none fun _ => ihleft
      rw [compile, bind_eq_error_iff, terms, List.findSome?_append, Option.or_eq_some_iff, ← hleft]
      simp only [bind_eq_error_iff, ihleft, ihright, pure, Except.pure, reduceCtorEq, and_false,
        exists_false, or_false, exists_and_right]

theorem exists_compile_iff {query : Query} :
    (∃ matcher, query.compile catalog graph = .ok matcher) ↔
      ∀ term ∈ query.terms, term.fault? catalog = none := by
  rw [← List.findSome?_eq_none_iff]
  exact exists_eq_ok_iff_eq_none fun _ => compile_eq_error_iff

theorem fault?_congr {other : Catalog}
    (htags : ∀ name, catalog.tags.find? name = none ↔ other.tags.find? name = none)
    (hvalues : ∀ literal,
      catalog.valuesMatching .eq literal = [] ↔ other.valuesMatching .eq literal = []) :
    fault? catalog = fault? other := by
  funext term
  cases term <;> simp only [fault?, htags, hvalues]

theorem holds_iff_forall_terms {query : Query} {facts : List Fact} :
    query.Holds catalog graph facts ↔ ∀ term ∈ query.terms, term.Holds catalog graph facts := by
  induction query with
  | everything => simp [Holds, terms]
  | both left right ihleft ihright =>
      rw [Holds, terms, List.forall_mem_append, ihleft, ihright]
  | _ => simp [terms]

/-- The terms that the names among tokens make; parentheses and the like are passed over. -/
def termsOf : List TokenKind → List Query
  | [] => []
  | .name tag _ :: .operator op :: .name value quoted :: kinds =>
      comparing tag op value quoted :: termsOf kinds
  | .name tag _ :: kinds => .tagged tag :: termsOf kinds
  | _ :: kinds => termsOf kinds

theorem termsOf_tagged {kinds : List TokenKind} (hnext : ∀ op, kinds.head? ≠ some (.operator op))
    (tag : String) (quoted : Bool) :
    termsOf (.name tag quoted :: kinds) = .tagged tag :: termsOf kinds := by
  rw [termsOf.eq_def]
  split
  · contradiction
  · rename_i hkinds
    cases hkinds
    exact absurd rfl (hnext _)
  · rename_i hkinds
    cases hkinds
    rfl
  · rename_i hname hkinds
    cases hkinds
    exact absurd rfl (hname _ _)

theorem terms_comparing (tag : String) (op : Operator) (value : String) (quoted : Bool) :
    (comparing tag op value quoted).terms = [comparing tag op value quoted] := by
  rw [comparing]
  split <;> rfl

def termsBefore (before : Option Query) : List Query := before.elim [] terms

theorem terms_after (before : Option Query) (query : Query) :
    (after before query).terms = termsBefore before ++ query.terms := by
  cases before <;> rfl

/-- Reading keeps every term in its place: first those of the open groups, the outermost first, then
those of the conjunction at hand and those of the tokens. -/
theorem Reads.terms_eq {groups : List (Option Query)} {before : Option Query}
    {kinds : List TokenKind} {query : Query} (h : Reads groups before kinds query) :
    query.terms = groups.reverse.flatMap termsBefore ++ termsBefore before ++ termsOf kinds := by
  induction h with
  | nothing => rfl
  | done => simp [termsBefore, termsOf]
  | openGroup _ ih => simpa [termsBefore, termsOf] using ih
  | closeGroup _ ih => simpa [termsBefore, terms_after, termsOf] using ih
  | and _ _ ih => simpa [termsOf] using ih
  | compared _ ih =>
      rw [ih, termsOf]
      simp [termsBefore, terms_after, terms_comparing]
  | tagged hnext _ ih =>
      rw [ih, termsOf_tagged hnext]
      simp [termsBefore, terms_after, terms]

theorem Reads.eq_nil_of_termsOf_eq_nil {groups : List (Option Query)} {before : Option Query}
    {kinds : List TokenKind} {query : Query} (h : Reads groups before kinds query)
    (hbefore : before = none) (hterms : termsOf kinds = []) : groups = [] ∧ kinds = [] := by
  induction h with
  | nothing => exact ⟨rfl, rfl⟩
  | openGroup _ ih =>
      obtain ⟨hgroups, -⟩ := ih rfl hterms
      contradiction
  | done | closeGroup | and => contradiction
  | compared =>
      rw [termsOf] at hterms
      contradiction
  | tagged hnext =>
      rw [termsOf_tagged hnext] at hterms
      contradiction

theorem Reads.eq_nil_of_everything {kinds : List TokenKind}
    (h : Reads [] none kinds .everything) : kinds = [] :=
  (h.eq_nil_of_termsOf_eq_nil rfl h.terms_eq.symm).2

/-- The terms that can be read off the kinds of tokens from left to right: a name with an operator
and a value behind it makes one, and so does every other name. Nothing is passed over. -/
inductive ReadsOff : List TokenKind → List Query → Prop
  | nil : ReadsOff [] []
  | anyValue {tag : String} {tagQuoted : Bool} {kinds : List TokenKind} {terms : List Query}
      (hrest : ReadsOff kinds terms) :
      ReadsOff (.name tag tagQuoted :: .operator .eq :: .name "*" false :: kinds)
        (.anyValue tag :: terms)
  | valued {tag value : String} {op : Operator} {tagQuoted quoted : Bool}
      {kinds : List TokenKind} {terms : List Query}
      (hstar : ¬ (op = .eq ∧ value = "*" ∧ quoted = false)) (hrest : ReadsOff kinds terms) :
      ReadsOff (.name tag tagQuoted :: .operator op :: .name value quoted :: kinds)
        (.valued tag op value :: terms)
  | tagged {tag : String} {quoted : Bool} {kinds : List TokenKind} {terms : List Query}
      (hnext : ∀ op, kinds.head? ≠ some (.operator op)) (hrest : ReadsOff kinds terms) :
      ReadsOff (.name tag quoted :: kinds) (.tagged tag :: terms)

theorem ReadsOff.head?_ne_operator {kinds : List TokenKind} {terms : List Query}
    (h : ReadsOff kinds terms) (op : Operator) : kinds.head? ≠ some (.operator op) := by
  cases h <;> simp

theorem ReadsOff.compared {tag value : String} {op : Operator} {tagQuoted quoted : Bool}
    {kinds : List TokenKind} {terms : List Query} (hrest : ReadsOff kinds terms) :
    ReadsOff (.name tag tagQuoted :: .operator op :: .name value quoted :: kinds)
      (comparing tag op value quoted :: terms) := by
  rw [comparing]
  split
  · rename_i hstar
    obtain ⟨rfl, rfl, rfl⟩ := hstar
    exact .anyValue hrest
  · rename_i hstar
    refine .valued ?_ hrest
    rintro ⟨hop, hvalue, hquoted⟩
    exact hstar ⟨hquoted, hvalue, hop⟩

theorem ReadsOff.eq_termsOf {kinds : List TokenKind} {terms : List Query}
    (h : ReadsOff kinds terms) : terms = termsOf kinds := by
  induction h with
  | nil => rfl
  | anyValue _ ih => rw [termsOf, ih, comparing, if_pos ⟨rfl, rfl, rfl⟩]
  | @valued tag value op _ quoted _ _ hstar _ ih =>
      have hterm : comparing tag op value quoted = .valued tag op value := by
        rw [comparing, if_neg]
        rintro ⟨hquoted, hvalue, hop⟩
        exact hstar ⟨hop, hvalue, hquoted⟩
      rw [termsOf, ih, hterm]
  | tagged hnext _ ih => rw [termsOf_tagged hnext, ih]

theorem Reads.readsOff {groups : List (Option Query)} {before : Option Query}
    {kinds : List TokenKind} {query : Query} (h : Reads groups before kinds query) :
    ReadsOff (kinds.filter fun kind => !kind.joinsTerms) (termsOf kinds) := by
  induction h with
  | nothing | done => exact .nil
  | openGroup _ ih | closeGroup _ ih | and _ _ ih => exact ih
  | compared _ ih => exact .compared ih
  | tagged hnext _ ih =>
      rw [termsOf_tagged hnext]
      exact .tagged ih.head?_ne_operator ih

/-- The terms of a query that was read are those, and in that order, that can be read off its
tokens without the parentheses and the `and`s. -/
theorem readsOff_iff_of_read {text : String} {query : Query} (h : read text = .ok query) :
    ∃ tokens, Token.scan text = .ok tokens ∧
      ∀ terms, ReadsOff ((tokens.map Token.kind).filter fun kind => !kind.joinsTerms) terms ↔
        terms = query.terms := by
  obtain ⟨tokens, hscan, hreads⟩ := exists_scan_of_read h
  have hterms : query.terms = termsOf (tokens.map Token.kind) := hreads.terms_eq
  have hreadsOff := hreads.readsOff
  rw [← hterms] at hreadsOff
  refine ⟨tokens, hscan, fun terms => ?_⟩
  constructor
  · intro hother
    rw [hother.eq_termsOf, ← hreadsOff.eq_termsOf]
  · rintro rfl
    exact hreadsOff

theorem readsOff_road_trip :
    let text := "(music AND (year<2000 genre=*)) and \"road trip\"==\"*\""
    let terms : List Query := [.tagged "music", .valued "year" .lt "2000", .anyValue "genre",
      .valued "road trip" .eq "*"]
    ∃ query tokens, read text = .ok query ∧ query.terms = terms ∧ Token.scan text = .ok tokens ∧
      ReadsOff ((tokens.map Token.kind).filter fun kind => !kind.joinsTerms) terms := by
  intro text terms
  have hread : read text = .ok (.both
      (.both (.tagged "music") (.both (.valued "year" .lt "2000") (.anyValue "genre")))
      (.valued "road trip" .eq "*")) := by decide +kernel
  obtain ⟨tokens, hscan, hiff⟩ := readsOff_iff_of_read hread
  exact ⟨_, tokens, hread, rfl, hscan, (hiff terms).mpr rfl⟩

end Query

end TagBase
