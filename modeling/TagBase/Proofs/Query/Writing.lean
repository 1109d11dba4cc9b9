import TagBase.Proofs.Query.Rendering

namespace TagBase

namespace Token

def escape : List Char → List Char
  | [] => []
  | c :: rest => if c = '"' ∨ c = '\\' then '\\' :: c :: escape rest else c :: escape rest

def quote (text : String) : String := "\"" ++ .ofList (escape text.toList) ++ "\""

theorem quoted?_escape (text rest : List Char) :
    quoted? (escape text ++ '"' :: rest) = some (text, (escape text).length + 1) := by
  induction text with
  | nil => rfl
  | cons c text ih =>
      rw [escape]
      split
      · simp [quoted?, ih]
      · rename_i hc
        obtain ⟨hquote, hescape⟩ := not_or.mp hc
        rw [List.cons_append, quoted?_cons hquote hescape, ih]
        rfl

theorem Spells.quote {rest : List Char} {kinds : List TokenKind} (text : String)
    (hrest : Spells rest kinds) :
    Spells ((Token.quote text).toList ++ rest) (.name text true :: kinds) := by
  have hquoted := quoted?_escape text.toList rest
  have hfirst : first 0 '"' (escape text.toList ++ '"' :: rest) =
      .ok (.name text true, (escape text.toList).length + 1) := by
    simp [first, hquoted]
  have hdrop :
      (escape text.toList ++ '"' :: rest).drop ((escape text.toList).length + 1) = rest := by
    simp [List.drop_append]
  have hspells : Spells ('"' :: (escape text.toList ++ '"' :: rest)) (.name text true :: kinds) :=
    .token (by decide) hfirst (hdrop.symm ▸ hrest)
  simpa [Token.quote] using hspells

end Token

namespace Query

open Token (Spells quote)

/-- The text of a query with all its names and values between quotes. -/
def write : Query → String
  | .everything => ""
  | .tagged tag => quote tag
  | .anyValue tag => quote tag ++ "=*"
  | .valued tag op literal => quote tag ++ op.symbol ++ quote literal
  | .both left right => "(" ++ left.write ++ " and " ++ right.write ++ ")"

theorem spells_write {query : Query} (hasking : query.Asking) {rest : List Char}
    {kinds : List TokenKind} (hend : rest.head?.any Token.isWordChar = false)
    (hrest : Spells rest kinds) :
    Spells (query.write.toList ++ rest) (query.tokenKinds true ++ kinds) := by
  induction query generalizing rest kinds with
  | everything => exact hasking.elim
  | tagged tag => exact .quote tag hrest
  | anyValue tag =>
      have hop := hrest.any_value hend
      simpa [write, tokenKinds] using hop.quote tag
  | valued tag op literal =>
      have hvalue := hrest.quote literal
      have hop := hvalue.operator op (by simp [quote])
      simpa [write, tokenKinds] using hop.quote tag
  | both left right ihleft ihright =>
      have hclose : Spells (')' :: rest) (.closeGroup :: kinds) := .closeGroup hrest
      have hsecond := ihright hasking.2 rfl hclose
      have hfirst := Spells.openGroup (ihleft hasking.1 rfl hsecond.spaced_and)
      simpa [write, tokenKinds] using hfirst

/-- A query that asks for something reads back from its text. -/
theorem read_write {query : Query} (hasking : query.Asking) : read query.write = .ok query := by
  have hspells := spells_write hasking rfl .nil
  rw [List.append_nil, List.append_nil] at hspells
  have hplain : true = false → query.IsPlain := nofun
  exact read_of_spells hasking hplain hspells

theorem read_write_quotes :
    let query : Query := .both (.both (.tagged "") (.anyValue "and")) (.both
      (.valued "a \"b\" \\" .eq "*") (.valued "λ (x" .ge "2000<"))
    query.Asking ∧ query.write =
        "((\"\" and \"and\"=*) and (\"a \\\"b\\\" \\\\\"==\"*\" and \"λ (x\">=\"2000<\"))" ∧
      read query.write = .ok query := by
  intro query
  have hasking : query.Asking := ⟨⟨trivial, trivial⟩, trivial, trivial⟩
  exact ⟨hasking, by decide +kernel, read_write hasking⟩

variable {queries : List Query} (hasking : ∀ query ∈ queries, query.Asking)

include hasking

theorem spells_write_all :
    Spells (queries.flatMap fun query => query.write.toList ++ [' '])
      (queries.flatMap (tokenKinds true)) := by
  induction queries with
  | nil => exact .nil
  | cons query rest ih =>
      obtain ⟨hquery, hrest⟩ := List.forall_mem_cons.mp hasking
      have hblank := Spells.blank (c := ' ') rfl (ih hrest)
      simpa using spells_write hquery rfl hblank

theorem reads_gathered (before : Option Query) :
    Reads [] before (queries.flatMap (tokenKinds true))
      ((queries.foldl (fun before query => some (after before query)) before).getD
        .everything) := by
  induction queries generalizing before with
  | nil =>
      cases before with
      | none => exact .nothing
      | some asked => exact .done
  | cons query rest ih =>
      obtain ⟨hquery, hrest⟩ := List.forall_mem_cons.mp hasking
      have hmore := ih hrest (some (after before query))
      have hplain : true = false → query.IsPlain := nofun
      exact .written hquery hplain hmore.head?_ne_operator hmore

/-- Written queries that stand side by side are read as their conjunction, nested to the left. -/
theorem read_join_write :
    read (String.join (queries.map fun query => query.write ++ " ")) = .ok (all queries) := by
  have hspells : Spells (String.join (queries.map fun query => query.write ++ " ")).toList
      (queries.flatMap (tokenKinds true)) := by
    simpa [List.flatMap_map] using spells_write_all hasking
  rw [all_eq_foldl_after]
  exact read_eq_ok_iff.mpr ⟨_, hspells, reads_gathered hasking none⟩

end Query

end TagBase
