import TagBase.Proofs.Query.Reading

namespace TagBase

namespace Query

open Token (Spells PlainWord)

/-- Every name and value of the query stands for itself without quotes. -/
def IsPlain : Query → Prop
  | .everything => True
  | .tagged tag => PlainWord tag
  | .anyValue tag => PlainWord tag
  | .valued tag op literal =>
      PlainWord tag ∧ PlainWord literal ∧ ¬ (op = .eq ∧ literal = "*")
  | .both left right => left.IsPlain ∧ right.IsPlain

instance decidableIsPlain : (query : Query) → Decidable query.IsPlain
  | .everything => inferInstanceAs (Decidable True)
  | .tagged tag => inferInstanceAs (Decidable (PlainWord tag))
  | .anyValue tag => inferInstanceAs (Decidable (PlainWord tag))
  | .valued tag op literal =>
      inferInstanceAs
        (Decidable (PlainWord tag ∧ PlainWord literal ∧ ¬ (op = .eq ∧ literal = "*")))
  | .both left right =>
      have := decidableIsPlain left
      have := decidableIsPlain right
      inferInstanceAs (Decidable (left.IsPlain ∧ right.IsPlain))

/-- The tokens a query is written in, with its names between quotes or bare. -/
def tokenKinds (quoted : Bool) : Query → List TokenKind
  | .everything => []
  | .tagged tag => [.name tag quoted]
  | .anyValue tag => [.name tag quoted, .operator .eq, .name "*" false]
  | .valued tag op literal => [.name tag quoted, .operator op, .name literal quoted]
  | .both left right =>
      .openGroup :: (left.tokenKinds quoted ++ .and :: right.tokenKinds quoted ++ [.closeGroup])

theorem exists_tokenKinds_eq_cons {query : Query} (hasking : query.Asking) (quoted : Bool) :
    ∃ first rest, query.tokenKinds quoted = first :: rest ∧ first ≠ .closeGroup := by
  cases query with
  | everything => exact hasking.elim
  | tagged | anyValue | valued | both => exact ⟨_, _, rfl, nofun⟩

theorem Reads.written {quoted : Bool} {asked : Query} (hasking : asked.Asking)
    (hplain : quoted = false → asked.IsPlain) {groups : List (Option Query)} {before : Option Query}
    {kinds : List TokenKind} {query : Query} (hnext : ∀ op, kinds.head? ≠ some (.operator op))
    (hrest : Reads groups (some (after before asked)) kinds query) :
    Reads groups before (asked.tokenKinds quoted ++ kinds) query := by
  induction asked generalizing groups before kinds with
  | everything => exact hasking.elim
  | tagged tag => exact .tagged hnext hrest
  | anyValue tag => exact .compared hrest
  | valued tag op literal =>
      have hterm : comparing tag op literal quoted = .valued tag op literal := by
        rw [comparing, if_neg]
        rintro ⟨hquoted, hliteral, hop⟩
        exact (hplain hquoted).2.2 ⟨hop, hliteral⟩
      exact .compared (hterm.symm ▸ hrest)
  | both left right ihleft ihright =>
      obtain ⟨first, more, hfirst, hclose⟩ := exists_tokenKinds_eq_cons hasking.2 quoted
      have hright : Reads (before :: groups) (some left)
          (right.tokenKinds quoted ++ .closeGroup :: kinds) query :=
        ihright hasking.2 (fun h => (hplain h).2) (by simp) (.closeGroup hrest)
      have hleft : Reads (before :: groups) none
          (left.tokenKinds quoted ++ .and :: (right.tokenKinds quoted ++ .closeGroup :: kinds))
          query := by
        refine ihleft hasking.1 (fun h => (hplain h).1) (by simp) ?_
        rw [hfirst] at hright ⊢
        exact .and hclose hright
      simpa [tokenKinds] using Reads.openGroup hleft

theorem read_of_spells {quoted : Bool} {query : Query} (hasking : query.Asking)
    (hplain : quoted = false → query.IsPlain) {text : String}
    (h : Spells text.toList (query.tokenKinds quoted)) : read text = .ok query := by
  have hreads : Reads [] none (query.tokenKinds quoted ++ []) query :=
    .written hasking hplain (by simp) .done
  rw [List.append_nil] at hreads
  exact read_eq_ok_iff.mpr ⟨_, h, hreads⟩

theorem spells_render {query : Query} (hasking : query.Asking) (hplain : query.IsPlain)
    {rest : List Char} {kinds : List TokenKind} (hend : rest.head?.any Token.isWordChar = false)
    (hrest : Spells rest kinds) :
    Spells (query.render.toList ++ rest) (query.tokenKinds false ++ kinds) := by
  fun_induction Query.render query generalizing rest kinds with
  | case1 => exact hasking.elim
  | case2 tag => exact .plain hplain hend hrest
  | case3 tag =>
      have hop := hrest.any_value hend
      simpa [tokenKinds] using Spells.plain hplain rfl hop
  | case4 tag op literal =>
      obtain ⟨htag, hliteral, -⟩ := hplain
      have hvalue := Spells.blank (c := ' ') rfl (.plain hliteral hend hrest)
      have hop := Spells.blank (c := ' ') rfl (.operator op (by simp) hvalue)
      simpa [tokenKinds] using Spells.plain htag rfl hop
  | case5 right ih => exact hasking.1.elim
  | case6 left => exact hasking.2.elim
  | case7 left right hleft hright ihleft ihright =>
      have hclose : Spells (')' :: rest) (.closeGroup :: kinds) := .closeGroup hrest
      have hsecond := ihright hasking.2 hplain.2 rfl hclose
      have hfirst := Spells.openGroup (ihleft hasking.1 hplain.1 rfl hsecond.spaced_and)
      simpa [tokenKinds] using hfirst

theorem read_render_of_isPlain {query : Query} (hasking : query.Asking) (hplain : query.IsPlain) :
    read query.render = .ok query := by
  have hspells := spells_render hasking hplain rfl .nil
  rw [List.append_nil, List.append_nil] at hspells
  exact read_of_spells hasking (fun _ => hplain) hspells

def quoteCount : Query → Nat
  | .everything => 0
  | .tagged tag => tag.toList.count '"'
  | .anyValue tag => tag.toList.count '"'
  | .valued tag _ literal => tag.toList.count '"' + literal.toList.count '"'
  | .both left right => left.quoteCount + right.quoteCount

theorem count_render (query : Query) : query.render.toList.count '"' = query.quoteCount := by
  fun_induction Query.render query with
  | case1 => rfl
  | case2 tag => rfl
  | case3 tag => simp [quoteCount]
  | case4 tag op literal =>
      have hop : op.symbol.toList.count '"' = 0 := by cases op <;> rfl
      simp [quoteCount, hop]
  | case5 right ih => rw [ih, quoteCount, quoteCount, Nat.zero_add]
  | case6 left hleft ih => rw [ih, quoteCount, quoteCount, Nat.add_zero]
  | case7 left right hleft hright ihleft ihright => simp [quoteCount, ihleft, ihright]

theorem quoteCount_comparing (tag : String) (op : Operator) (value : String) (quoted : Bool) :
    (comparing tag op value quoted).quoteCount =
      tag.toList.count '"' + value.toList.count '"' := by
  rw [comparing]
  split
  · rename_i h
    rw [h.2.1]
    rfl
  · rfl

theorem quoteCount_after (before : Option Query) (query : Query) :
    (after before query).quoteCount = before.elim 0 quoteCount + query.quoteCount := by
  cases before with
  | none => exact (Nat.zero_add _).symm
  | some before => rfl

theorem Reads.quoteCount_eq {groups : List (Option Query)} {before : Option Query}
    {kinds : List TokenKind} {query : Query} (h : Reads groups before kinds query) :
    query.quoteCount =
      (groups.map (·.elim 0 quoteCount)).sum + before.elim 0 quoteCount +
        (kinds.map TokenKind.innerQuotes).sum := by
  induction h with
  | nothing => rfl
  | done => simp
  | openGroup hrest ih | and hnext hrest ih =>
      rw [ih]
      simp only [List.map_cons, List.sum_cons, Option.elim, TokenKind.innerQuotes]
      omega
  | closeGroup hrest ih =>
      rw [ih]
      simp only [List.map_cons, List.sum_cons, Option.elim, TokenKind.innerQuotes,
        quoteCount_after]
      omega
  | compared hrest ih =>
      rw [ih]
      simp only [List.map_cons, List.sum_cons, Option.elim, TokenKind.innerQuotes,
        quoteCount_after, quoteCount_comparing]
      omega
  | tagged hnext hrest ih =>
      rw [ih]
      simp only [List.map_cons, List.sum_cons, Option.elim, TokenKind.innerQuotes,
        quoteCount_after, quoteCount]
      omega

theorem isPlain_of_reads {kinds : List TokenKind} {query : Query} (h : Reads [] none kinds query)
    (hbare : ∀ text quoted, .name text quoted ∈ kinds → quoted = false ∧ PlainWord text) :
    query.IsPlain := by
  have hread : query = .everything ∨ query.IsPlain := by
    refine Reads.forall_terms (· ∈ kinds) ?_ ?_ ?_ h (fun _ h => h) (by simp) (by simp)
    · exact fun left right hleft hright => ⟨hleft, hright⟩
    · exact fun tag quoted htag => (hbare tag quoted htag).2
    · intro tag tagQuoted op value quoted htag hvalue
      obtain ⟨-, htag⟩ := hbare tag tagQuoted htag
      obtain ⟨rfl, hliteral⟩ := hbare value quoted hvalue
      rw [comparing]
      split
      · exact htag
      · rename_i hstar
        refine ⟨htag, hliteral, ?_⟩
        rintro ⟨hop, hvalue⟩
        exact hstar ⟨rfl, hvalue, hop⟩
  rcases hread with rfl | hplain
  · trivial
  · exact hplain

/-- The text that shows a query which was read reads back to it exactly when the query is plain. -/
theorem read_render_iff {text : String} {query : Query} (h : read text = .ok query) :
    read query.render = .ok query ↔ query.IsPlain := by
  constructor
  · intro hback
    obtain ⟨kinds, hspells, hreads⟩ := read_eq_ok_iff.mp hback
    have hcount := hspells.count_eq
    rw [count_render] at hcount
    have hquotes : query.quoteCount = (kinds.map TokenKind.innerQuotes).sum := by
      simpa using hreads.quoteCount_eq
    -- every quote of the shown text stands in a name, so none stands around one
    have houter : (kinds.map TokenKind.outerQuotes).sum = 0 := by omega
    refine isPlain_of_reads hreads ?_
    intro name quoted hmem
    cases quoted with
    | false => exact ⟨rfl, hspells.plainWord hmem⟩
    | true =>
        have htwo : 2 ∈ kinds.map TokenKind.outerQuotes := List.mem_map.mpr ⟨_, hmem, rfl⟩
        have hzero := List.sum_eq_zero_iff_forall_eq_nat.mp houter 2 htwo
        omega
  · intro hplain
    rcases eq_everything_or_asking_of_read h with rfl | hasking
    · rfl
    · exact read_render_of_isPlain hasking hplain

theorem read_render_era :
    read "music year<2000 genre=*" =
        .ok (.both (.both (.tagged "music") (.valued "year" .lt "2000")) (.anyValue "genre")) ∧
      read "((music and year < 2000) and genre=*)" =
        .ok (.both (.both (.tagged "music") (.valued "year" .lt "2000")) (.anyValue "genre")) := by
  have hread : read "music year<2000 genre=*" =
      .ok (.both (.both (.tagged "music") (.valued "year" .lt "2000")) (.anyValue "genre")) := by
    decide +kernel
  exact ⟨hread, (read_render_iff hread).mpr (by decide)⟩

/-- A tag whose name has a blank was read between quotes and is shown without them. -/
theorem read_render_road_trip :
    read "\"road trip\"" = .ok (.tagged "road trip") ∧
      read (Query.tagged "road trip").render ≠ .ok (.tagged "road trip") := by
  decide +kernel

end Query

end TagBase
