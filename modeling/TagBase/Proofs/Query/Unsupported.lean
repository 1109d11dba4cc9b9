import TagBase.Proofs.Query.Joining

namespace TagBase

def TokenKind.unsupported? : TokenKind → Option Unsupported
  | .or => some .disjunction
  | .not => some .negation
  | .bang => some .negation
  | _ => none

theorem TokenKind.ne_operator_of_unsupported? {kind : TokenKind} {form : Unsupported}
    (h : kind.unsupported? = some form) (op : Operator) : kind ≠ .operator op := by
  rintro rfl
  cases h

namespace Token

theorem letter_of_isLower_toLower {c : Char} (h : c.toLower.isLower = true) :
    65 ≤ c.toNat ∧ c.toNat ≤ 90 ∨ 97 ≤ c.toNat ∧ c.toNat ≤ 122 := by
  by_cases hupper : c.val ≥ 'A'.val ∧ c.val ≤ 'Z'.val
  · exact .inl ⟨UInt32.le_iff_toNat_le.mp hupper.1, UInt32.le_iff_toNat_le.mp hupper.2⟩
  · have hsame : c.toLower = c := dif_neg hupper
    have hlower : (decide (c.val ≥ 'a'.val) && decide (c.val ≤ 'z'.val)) = true := hsame ▸ h
    rw [Bool.and_eq_true, decide_eq_true_eq, decide_eq_true_eq] at hlower
    exact .inr ⟨UInt32.le_iff_toNat_le.mp hlower.1, UInt32.le_iff_toNat_le.mp hlower.2⟩

theorem isWordChar_of_isLower_toLower {c : Char} (h : c.toLower.isLower = true) :
    isWordChar c = true := by
  have hletter := letter_of_isLower_toLower h
  rw [isWordChar_eq_true_iff]
  constructor
  · simp only [Text.isBlank, Text.blankRanges, List.any_cons, List.any_nil, Bool.or_eq_false_iff,
      Bool.and_eq_false_iff, decide_eq_false_iff_not, and_true]
    omega
  · rw [← Bool.not_eq_true]
    intro hspecial
    simp only [isSpecial, Bool.or_eq_true, beq_iff_eq] at hspecial
    rcases hspecial with ((((((rfl | rfl) | rfl) | rfl) | rfl) | rfl) | rfl) <;>
      exact absurd hletter (by decide)

section Keywords

variable {form : Unsupported} {word : List Char} (h : Text.isWord form.message word = true)

include h

theorem map_toLower_of_isWord : word.map Char.toLower = form.message.toList := beq_iff_eq.mp h

theorem all_isWordChar_of_isWord : word.all isWordChar = true := by
  have hlower : (word.map Char.toLower).all Char.isLower = true := by
    rw [map_toLower_of_isWord h]
    cases form <;> rfl
  rw [List.all_map, List.all_eq_true] at hlower
  rw [List.all_eq_true]
  exact fun c hc => isWordChar_of_isLower_toLower (hlower c hc)

theorem unsupported?_ofWord : (ofWord word).unsupported? = some form := by
  have hlower := map_toLower_of_isWord h
  cases form <;> simp only [ofWord, Text.isWord, hlower] <;> rfl

theorem ne_nil_of_isWord : word ≠ [] := by
  rintro rfl
  cases form <;> cases h

theorem Spells.keyword {rest : List Char} {kinds : List TokenKind}
    (hend : rest.head?.any isWordChar = false) (hrest : Spells rest kinds) :
    Spells (word ++ rest) (ofWord word :: kinds) :=
  .word (ne_nil_of_isWord h) (all_isWordChar_of_isWord h) hend hrest

end Keywords

theorem Spells.bang {rest : List Char} {kinds : List TokenKind} (hend : rest.head? ≠ some '=')
    (hrest : Spells rest kinds) : Spells ('!' :: rest) (.bang :: kinds) := by
  have hfirst : first 0 '!' rest = .ok (.bang, 0) := by simp [first, isSpecial, hend]
  exact .token (by decide) hfirst hrest

end Token

namespace Query

open Token (Spells parts_cons)

theorem readFrom_of_unsupported? {token : Token} {form : Unsupported}
    (h : token.kind.unsupported? = some form) (groups : List OpenGroup) (before : Option Query)
    (rest : List Token) :
    readFrom groups before (token :: rest) = .error (.unsupported form) := by
  rw [readFrom.eq_def]
  cases hkind : token.kind <;> rw [hkind] at h <;> cases h <;> simp only [hkind]

theorem read_of_spells_unsupported {text : String} {kinds others : List TokenKind}
    {next : TokenKind} {query : Query} {form : Unsupported}
    (hspells : Spells text.toList (kinds ++ next :: others)) (hreads : Reads [] none kinds query)
    (hnext : next.unsupported? = some form) : read text = .error (.unsupported form) := by
  have htokens : ∃ tokens, Token.scan text = .ok tokens ∧
      tokens.map Token.kind = kinds ++ next :: others := Token.scanFrom_eq_ok_iff.mpr hspells
  obtain ⟨tokens, hscan, hkinds⟩ := htokens
  obtain ⟨asking, rest, rfl, rfl, hrest⟩ := List.map_eq_append_iff.mp hkinds
  obtain ⟨token, rest, rfl, rfl, rfl⟩ := List.map_eq_cons_iff.mp hrest
  have hread : read text = readFrom [] none (asking ++ token :: rest) := by
    rw [read, hscan]
    rfl
  have hoperator : ∀ op, ((token :: rest).map Token.kind).head? ≠ some (.operator op) := by
    intro op
    simpa using TokenKind.ne_operator_of_unsupported? hnext op
  have hgroups : Reads (([] : List OpenGroup).map OpenGroup.before) none (asking.map Token.kind)
      query := hreads
  obtain ⟨asked, -, happend⟩ := exists_readFrom_append hgroups
  rw [hread, happend _ hoperator, readFrom_of_unsupported? hnext]

theorem exists_error_of_unsupported {text : String} {tokens : List Token}
    (hscan : Token.scan text = .ok tokens)
    (htokens : ∃ token ∈ tokens, token.kind = .or ∨ token.kind = .not ∨ token.kind = .bang) :
    ∃ error, read text = .error error := by
  obtain ⟨token, htoken, hkind⟩ := htokens
  cases hread : read text with
  | error error => exact ⟨error, rfl⟩
  | ok query =>
      have hok : ofTokens tokens = .ok query := by
        rw [← hread, read, hscan]
        rfl
      obtain ⟨hor, hnot, hbang⟩ := (ofTokens_eq_ok_iff.mp hok).derives.ne_unsupported token.kind
        (List.mem_map_of_mem htoken)
      rcases hkind with hkind | hkind | hkind
      · exact absurd hkind hor
      · exact absurd hkind hnot
      · exact absurd hkind hbang

/-- A text with a disjunction or a negation among its tokens is not read. Behind a text that is
read, blank or not, the form is reported that the keyword or the exclamation mark stands for,
whatever tokens the text behind it has. -/
theorem unsupported_refused :
    (∀ text tokens, Token.scan text = .ok tokens →
        (∃ token ∈ tokens, token.kind = .or ∨ token.kind = .not ∨ token.kind = .bang) →
        ∃ error, read text = .error error) ∧
      ∀ first query second tokens, read first = .ok query → Token.scan second = .ok tokens →
        (∀ (form : Unsupported) (word : String), Text.isWord form.message word.toList = true →
          read (first ++ " " ++ word ++ " " ++ second) = .error (.unsupported form)) ∧
        read (first ++ " ! " ++ second) = .error (.unsupported .negation) := by
  refine ⟨fun _ _ => exists_error_of_unsupported, ?_⟩
  intro first query second tokens hfirst hsecond
  obtain ⟨kinds, hspells, hreads⟩ := read_eq_ok_iff.mp hfirst
  have hothers : Spells second.toList (tokens.map Token.kind) :=
    Token.scanFrom_eq_ok_iff.mp ⟨tokens, hsecond, rfl⟩
  have hblank : Spells (' ' :: second.toList) (tokens.map Token.kind) := .blank rfl hothers
  constructor
  · intro form word hword
    have hbehind : Spells (' ' :: (word.toList ++ ' ' :: second.toList))
        (Token.ofWord word.toList :: tokens.map Token.kind) :=
      .blank rfl (.keyword hword rfl hblank)
    have hjoined : Spells (first ++ " " ++ word ++ " " ++ second).toList
        (kinds ++ Token.ofWord word.toList :: tokens.map Token.kind) := by
      simpa using hspells.append (parts_cons rfl (by decide) _) hbehind
    exact read_of_spells_unsupported hjoined hreads (Token.unsupported?_ofWord hword)
  · have hbehind : Spells (' ' :: '!' :: ' ' :: second.toList) (.bang :: tokens.map Token.kind) :=
      .blank rfl (.bang (by simp) hblank)
    have hjoined : Spells (first ++ " ! " ++ second).toList
        (kinds ++ .bang :: tokens.map Token.kind) := by
      simpa using hspells.append (parts_cons rfl (by decide) _) hbehind
    exact read_of_spells_unsupported hjoined hreads rfl

theorem unsupported_refused_os :
    let tokens : List Token := [⟨.name "os" false, 0⟩, ⟨.operator .eq, 3⟩, ⟨.not, 5⟩]
    let first := "(os == \"a or b\")"
    let second := "= ) and"
    Token.scan "os = NOT" = .ok tokens ∧ (∃ error, read "os = NOT" = .error error) ∧
      read first = .ok (.valued "os" .eq "a or b") ∧
      Token.scan second = .ok [⟨.operator .eq, 0⟩, ⟨.closeGroup, 2⟩, ⟨.and, 4⟩] ∧
      Text.isWord Unsupported.disjunction.message "Or".toList = true ∧
      read (first ++ " " ++ "Or" ++ " " ++ second) = .error (.unsupported .disjunction) ∧
      read (first ++ " ! " ++ second) = .error (.unsupported .negation) := by
  intro tokens first second
  have hscan : Token.scan "os = NOT" = .ok tokens := by decide +kernel
  have htoken : ∃ token ∈ tokens, token.kind = .or ∨ token.kind = .not ∨ token.kind = .bang :=
    ⟨⟨.not, 5⟩, by decide, by decide⟩
  have hfirst : read first = .ok (.valued "os" .eq "a or b") := by decide +kernel
  have hsecond : Token.scan second = .ok [⟨.operator .eq, 0⟩, ⟨.closeGroup, 2⟩, ⟨.and, 4⟩] := by
    decide +kernel
  have hword : Text.isWord Unsupported.disjunction.message "Or".toList = true := by decide +kernel
  obtain ⟨herror, hbehind⟩ := unsupported_refused
  obtain ⟨hkeyword, hbang⟩ := hbehind first _ second _ hfirst hsecond
  exact ⟨hscan, herror _ _ hscan htoken, hfirst, hsecond, hword, hkeyword .disjunction "Or" hword,
    hbang⟩

end Query

end TagBase
