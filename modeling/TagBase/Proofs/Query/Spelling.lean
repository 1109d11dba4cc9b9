import Mathlib.Algebra.GroupWithZero.Nat
import Mathlib.Data.List.Basic
import TagBase.Query.Token

namespace TagBase

def TokenKind.innerQuotes : TokenKind → Nat
  | .name text _ => text.toList.count '"'
  | _ => 0

def TokenKind.outerQuotes : TokenKind → Nat
  | .name _ true => 2
  | _ => 0

def TokenKind.isSymbol : TokenKind → Bool
  | .operator _ => true
  | .openGroup => true
  | .closeGroup => true
  | .bang => true
  | _ => false

namespace Token

/-- A text consists of tokens of the given kinds, with blanks between them. -/
inductive Spells : List Char → List TokenKind → Prop
  | nil : Spells [] []
  | blank {c : Char} {rest : List Char} {kinds : List TokenKind} (hc : Text.isBlank c = true)
      (hrest : Spells rest kinds) : Spells (c :: rest) kinds
  | token {start more : Nat} {c : Char} {rest : List Char} {kind : TokenKind}
      {kinds : List TokenKind} (hc : Text.isBlank c = false)
      (hfirst : first start c rest = .ok (kind, more)) (hrest : Spells (rest.drop more) kinds) :
      Spells (c :: rest) (kind :: kinds)

theorem first_eq_ok_congr {start : Nat} {c : Char} {rest : List Char} {found : TokenKind × Nat}
    (h : first start c rest = .ok found) (other : Nat) : first other c rest = .ok found := by
  rw [first] at h ⊢
  rcases eq_or_ne c '"' with rfl | hquote
  · cases hquoted : quoted? rest with
    | none => simp [hquoted] at h
    | some text => simpa [hquoted] using h
  · simpa [hquote] using h

theorem scanFrom_cons (start : Nat) (c : Char) (rest : List Char) :
    scanFrom start 0 (c :: rest) =
      if Text.isBlank c then scanFrom (start + c.utf8Size) 0 rest
      else do
        let (kind, more) ← first start c rest
        return ⟨kind, start⟩ :: (← scanFrom (start + c.utf8Size) more rest) := rfl

theorem scanFrom_cons_cases {start skip : Nat} {c : Char} {rest : List Char} {tokens : List Token}
    (h : scanFrom start skip (c :: rest) = .ok tokens) :
    (∃ less, skip = less + 1 ∧ scanFrom (start + c.utf8Size) less rest = .ok tokens) ∨
    (skip = 0 ∧ Text.isBlank c = true ∧ scanFrom (start + c.utf8Size) 0 rest = .ok tokens) ∨
    (skip = 0 ∧ Text.isBlank c = false ∧ ∃ kind more others,
      first start c rest = .ok (kind, more) ∧
      scanFrom (start + c.utf8Size) more rest = .ok others ∧ tokens = ⟨kind, start⟩ :: others) := by
  cases skip with
  | succ less => exact .inl ⟨less, rfl, h⟩
  | zero =>
      rw [scanFrom_cons] at h
      split at h
      · rename_i hc
        exact .inr (.inl ⟨rfl, hc, h⟩)
      · rename_i hc
        obtain ⟨⟨kind, more⟩, hfirst, h⟩ := bind_eq_ok_iff.mp h
        obtain ⟨others, hothers, h⟩ := bind_eq_ok_iff.mp h
        cases h
        exact .inr (.inr ⟨rfl, by simpa using hc, kind, more, others, hfirst, hothers, rfl⟩)

theorem le_start_of_scanFrom {start skip : Nat} {text : List Char} {tokens : List Token}
    (h : scanFrom start skip text = .ok tokens) : ∀ token ∈ tokens, start ≤ token.start := by
  induction text generalizing start skip tokens with
  | nil =>
      cases h
      simp
  | cons c rest ih =>
      obtain ⟨less, rfl, hrest⟩ | ⟨rfl, -, hrest⟩ | ⟨rfl, -, kind, more, others, -, hothers, rfl⟩ :=
        scanFrom_cons_cases h
      · exact fun token htoken => Nat.le_of_add_right_le (ih hrest token htoken)
      · exact fun token htoken => Nat.le_of_add_right_le (ih hrest token htoken)
      · refine List.forall_mem_cons.mpr ⟨Nat.le_refl start, fun token htoken => ?_⟩
        exact Nat.le_of_add_right_le (ih hothers token htoken)

theorem start_ne_of_scanFrom {start skip : Nat} {c : Char} {rest : List Char}
    {tokens : List Token} (h : scanFrom (start + c.utf8Size) skip rest = .ok tokens) :
    ∀ token ∈ tokens, token.start ≠ start := by
  intro token htoken
  have hle := le_start_of_scanFrom h token htoken
  have hpos := c.utf8Size_pos
  omega

theorem spells_of_scanFrom {start skip : Nat} {text : List Char} {tokens : List Token}
    (h : scanFrom start skip text = .ok tokens) : Spells (text.drop skip) (tokens.map kind) := by
  induction text generalizing start skip tokens with
  | nil =>
      cases h
      rw [List.drop_nil]
      exact .nil
  | cons c rest ih =>
      obtain ⟨less, rfl, hrest⟩ | ⟨rfl, hc, hrest⟩ |
        ⟨rfl, hc, kind, more, others, hfirst, hothers, rfl⟩ := scanFrom_cons_cases h
      · exact ih hrest
      · exact .blank hc (ih hrest)
      · exact .token hc hfirst (ih hothers)

theorem exists_scanFrom_of_spells {start skip : Nat} {text : List Char} {kinds : List TokenKind}
    (h : Spells (text.drop skip) kinds) :
    ∃ tokens, scanFrom start skip text = .ok tokens ∧ tokens.map kind = kinds := by
  induction text generalizing start skip kinds with
  | nil =>
      rw [List.drop_nil] at h
      cases h
      exact ⟨[], rfl, rfl⟩
  | cons c rest ih =>
      cases skip with
      | succ skip => exact ih h
      | zero =>
          rw [List.drop_zero] at h
          cases h with
          | blank hc hrest =>
              rw [scanFrom_cons, if_pos hc]
              exact ih hrest
          | token hc hfirst hrest =>
              rename_i more kind _
              obtain ⟨others, hothers, rfl⟩ := ih hrest
              refine ⟨⟨kind, start⟩ :: others, ?_, rfl⟩
              rw [scanFrom_cons, if_neg (by simp [hc]), first_eq_ok_congr hfirst start]
              change (scanFrom _ _ _ >>= _) = _
              rw [hothers]
              rfl

theorem scanFrom_eq_ok_iff {start skip : Nat} {text : List Char} {kinds : List TokenKind} :
    (∃ tokens, scanFrom start skip text = .ok tokens ∧ tokens.map kind = kinds) ↔
      Spells (text.drop skip) kinds := by
  constructor
  · rintro ⟨tokens, hok, rfl⟩
    exact spells_of_scanFrom hok
  · exact exists_scanFrom_of_spells

/-- A word that stands for itself without quotes. -/
structure PlainWord (word : String) : Prop where
  ne_empty : word ≠ ""
  all_isWordChar : word.toList.all isWordChar = true
  ofWord_toList : ofWord word.toList = .name word false

instance (word : String) : Decidable (PlainWord word) :=
  decidable_of_iff
    (word ≠ "" ∧ word.toList.all isWordChar = true ∧ ofWord word.toList = .name word false)
    ⟨fun ⟨hne, hword, hof⟩ => ⟨hne, hword, hof⟩, fun h => ⟨h.1, h.2, h.3⟩⟩

theorem isWordChar_eq_true_iff {c : Char} :
    isWordChar c = true ↔ Text.isBlank c = false ∧ isSpecial c = false := by
  rw [isWordChar, Bool.not_eq_true', Bool.or_eq_false_iff]

theorem ofWord_cases (word : List Char) :
    ofWord word = .and ∨ ofWord word = .or ∨ ofWord word = .not ∨
      ofWord word = .name (.ofList word) false := by
  rw [ofWord]
  split
  · exact .inl rfl
  split
  · exact .inr (.inl rfl)
  split
  · exact .inr (.inr (.inl rfl))
  · exact .inr (.inr (.inr rfl))

theorem length_eq_three_of_ofWord {word : List Char} (h : ofWord word = .and) :
    word.length = 3 := by
  rw [ofWord] at h
  split at h
  · rename_i hand
    have hlower : word.map Char.toLower = ['a', 'n', 'd'] := beq_iff_eq.mp hand
    rw [← List.length_map Char.toLower, hlower]
    rfl
  · split at h
    · cases h
    split at h <;> cases h

theorem first_eq_ok_cases {start more : Nat} {c : Char} {rest : List Char} {kind : TokenKind}
    (hc : Text.isBlank c = false) (h : first start c rest = .ok (kind, more)) :
    (c = '"' ∧ ∃ text, quoted? rest = some (text, more) ∧ kind = .name (.ofList text) true) ∨
    (isWordChar c = true ∧ more = (rest.takeWhile isWordChar).length ∧
      kind = ofWord (c :: rest.takeWhile isWordChar)) ∨
    (c ≠ '"' ∧ kind.isSymbol = true ∧ (more = 0 ∨ more = 1 ∧ rest.head? = some '=')) := by
  have hsymbol : ∀ {symbol : String} {length : Nat},
      (do return (TokenKind.operator (← Operator.ofSymbol symbol), length)) =
        Except.ok (ε := Error) (kind, more) →
      kind.isSymbol = true ∧ more = length := by
    intro symbol length hok
    obtain ⟨op, _, hok⟩ := bind_eq_ok_iff.mp hok
    cases hok
    exact ⟨rfl, rfl⟩
  rw [first] at h
  split at h
  · cases h
    exact .inr (.inr ⟨by simp_all, rfl, .inl rfl⟩)
  split at h
  · cases h
    exact .inr (.inr ⟨by simp_all, rfl, .inl rfl⟩)
  split at h
  · rename_i hquote
    split at h
    · rename_i text length hquoted
      cases h
      exact .inl ⟨hquote, text, hquoted, rfl⟩
    · cases h
  rename_i hquote
  split at h
  · split at h
    · rename_i hhead
      obtain ⟨hkind, hmore⟩ := hsymbol h
      exact .inr (.inr ⟨hquote, hkind, .inr ⟨hmore, hhead⟩⟩)
    split at h
    · cases h
      exact .inr (.inr ⟨hquote, rfl, .inl rfl⟩)
    · obtain ⟨hkind, hmore⟩ := hsymbol h
      exact .inr (.inr ⟨hquote, hkind, .inl hmore⟩)
  · rename_i hspecial
    cases h
    exact .inr (.inl ⟨isWordChar_eq_true_iff.mpr ⟨hc, by simpa using hspecial⟩, rfl, rfl⟩)

theorem plainWord_of_ofWord {word : List Char} {text : String} {quoted : Bool} (hne : word ≠ [])
    (hword : word.all isWordChar = true) (h : ofWord word = .name text quoted) :
    quoted = false ∧ PlainWord text := by
  rcases ofWord_cases word with hand | hor | hnot | hname
  · cases hand.symm.trans h
  · cases hor.symm.trans h
  · cases hnot.symm.trans h
  · cases hname.symm.trans h
    refine ⟨rfl, ?_, ?_, ?_⟩
    · simpa using hne
    · simpa using hword
    · simpa using hname

theorem Spells.plainWord {text : List Char} {kinds : List TokenKind} (h : Spells text kinds)
    {word : String} (hmem : .name word false ∈ kinds) : PlainWord word := by
  induction h with
  | nil => cases hmem
  | blank hc hrest ih => exact ih hmem
  | token hc hfirst hrest ih =>
      rcases List.mem_cons.mp hmem with rfl | hmem
      · rcases first_eq_ok_cases hc hfirst with ⟨_, _, _, hkind⟩ | ⟨hc, _, hkind⟩ | ⟨_, hkind, _⟩
        · cases hkind
        · refine (plainWord_of_ofWord (List.cons_ne_nil _ _) ?_ hkind.symm).2
          simp [hc, List.all_takeWhile]
        · cases hkind
      · exact ih hmem

variable {rest : List Char} {kinds : List TokenKind}

theorem takeWhile_word_append {word : List Char} (hword : word.all isWordChar = true)
    (hend : rest.head?.any isWordChar = false) :
    (word ++ rest).takeWhile isWordChar = word := by
  rw [List.takeWhile_append_of_pos (List.all_eq_true.mp hword)]
  cases rest with
  | nil => simp
  | cons c rest =>
      have hc : isWordChar c = false := hend
      simp [hc]

theorem first_word (start : Nat) {c : Char} (hc : isSpecial c = false) (rest : List Char) :
    first start c rest =
      .ok (ofWord (c :: rest.takeWhile isWordChar), (rest.takeWhile isWordChar).length) := by
  simp only [isSpecial, Bool.or_eq_false_iff, beq_eq_false_iff_ne] at hc
  simp [first, isSpecial, hc]

theorem Spells.word {word : List Char} (hne : word ≠ [])
    (hword : word.all isWordChar = true) (hend : rest.head?.any isWordChar = false)
    (hrest : Spells rest kinds) : Spells (word ++ rest) (ofWord word :: kinds) := by
  obtain ⟨c, more, rfl⟩ := List.exists_cons_of_ne_nil hne
  rw [List.all_cons, Bool.and_eq_true] at hword
  obtain ⟨hblank, hspecial⟩ := isWordChar_eq_true_iff.mp hword.1
  have hfirst : first 0 c (more ++ rest) = .ok (ofWord (c :: more), more.length) := by
    rw [first_word 0 hspecial, takeWhile_word_append hword.2 hend]
  exact .token hblank hfirst (by simpa using hrest)

theorem Spells.plain {word : String} (hplain : PlainWord word)
    (hend : rest.head?.any isWordChar = false) (hrest : Spells rest kinds) :
    Spells (word.toList ++ rest) (.name word false :: kinds) := by
  rw [← hplain.ofWord_toList]
  exact .word (by simpa using hplain.ne_empty) hplain.all_isWordChar hend hrest

theorem Spells.and (hend : rest.head?.any isWordChar = false) (hrest : Spells rest kinds) :
    Spells ('a' :: 'n' :: 'd' :: rest) (.and :: kinds) :=
  .word (by decide : ['a', 'n', 'd'] ≠ []) (by decide) hend hrest

theorem Spells.openGroup (hrest : Spells rest kinds) : Spells ('(' :: rest) (.openGroup :: kinds) :=
  .token (by decide) (by rfl : first 0 '(' rest = .ok (.openGroup, 0)) hrest

theorem Spells.closeGroup (hrest : Spells rest kinds) :
    Spells (')' :: rest) (.closeGroup :: kinds) :=
  .token (by decide) (by rfl : first 0 ')' rest = .ok (.closeGroup, 0)) hrest

theorem Spells.sign {c : Char} {op : Operator} (hc : c ∈ ['=', '<', '>'])
    (hop : Operator.ofSymbol (.ofList [c]) = .ok op) (hend : rest.head? ≠ some '=')
    (hrest : Spells rest kinds) : Spells (c :: rest) (.operator op :: kinds) := by
  simp only [List.mem_cons, List.not_mem_nil, or_false] at hc
  have hblank : Text.isBlank c = false := by rcases hc with rfl | rfl | rfl <;> rfl
  have hfirst : first 0 c rest = .ok (.operator op, 0) := by
    rcases hc with rfl | rfl | rfl <;> simp [first, isSpecial, hend, hop]
  exact .token hblank hfirst hrest

theorem Spells.sign_equals {c : Char} {op : Operator} (hc : c ∈ ['=', '!', '<', '>'])
    (hop : Operator.ofSymbol (.ofList [c, '=']) = .ok op) (hrest : Spells rest kinds) :
    Spells (c :: '=' :: rest) (.operator op :: kinds) := by
  simp only [List.mem_cons, List.not_mem_nil, or_false] at hc
  have hblank : Text.isBlank c = false := by rcases hc with rfl | rfl | rfl | rfl <;> rfl
  have hfirst : first 0 c ('=' :: rest) = .ok (.operator op, 1) := by
    rcases hc with rfl | rfl | rfl | rfl <;> simp [first, isSpecial, hop]
  exact .token hblank hfirst hrest

theorem Spells.operator (op : Operator) (hend : rest.head? ≠ some '=') (hrest : Spells rest kinds) :
    Spells (op.symbol.toList ++ rest) (.operator op :: kinds) := by
  cases op with
  | lt | gt => exact .sign (by decide) rfl hend hrest
  | eq | ne | le | ge => exact .sign_equals (by decide) rfl hrest

theorem Spells.any_value (hend : rest.head?.any isWordChar = false) (hrest : Spells rest kinds) :
    Spells ('=' :: '*' :: rest) (.operator .eq :: .name "*" false :: kinds) := by
  have hstar : PlainWord "*" := by decide
  have hvalue : Spells ('*' :: rest) (.name "*" false :: kinds) := .plain hstar hend hrest
  exact .sign (by decide) rfl (by simp) hvalue

theorem Spells.spaced_and (hrest : Spells rest kinds) :
    Spells (' ' :: 'a' :: 'n' :: 'd' :: ' ' :: rest) (.and :: kinds) := by
  have hspace : Spells (' ' :: rest) kinds := .blank rfl hrest
  exact .blank rfl (.and rfl hspace)

theorem quoted?_cons {c : Char} (hquote : c ≠ '"') (hescape : c ≠ '\\') (rest : List Char) :
    quoted? (c :: rest) = (quoted? rest).map fun (text, length) => (c :: text, length + 1) := by
  rw [quoted?.eq_def]
  split <;> simp_all

theorem count_eq_of_quoted? {rest text : List Char} {length : Nat}
    (h : quoted? rest = some (text, length)) :
    rest.count '"' = text.count '"' + 1 + (rest.drop length).count '"' := by
  fun_induction quoted? rest generalizing text length with
  | case1 => cases h
  | case2 rest =>
      cases h
      simp [Nat.add_comm]
  | case3 c rest ih =>
      obtain ⟨⟨inner, more⟩, hinner, hfound⟩ := Option.map_eq_some_iff.mp h
      cases hfound
      have hcount := ih hinner
      have hescape : ('\\' == '"') = false := rfl
      simp only [List.count_cons, List.drop_succ_cons, hescape, Bool.false_eq_true, if_false]
      omega
  | case4 => cases h
  | case5 c rest hquote hescape hlast ih =>
      obtain ⟨⟨inner, more⟩, hinner, hfound⟩ := Option.map_eq_some_iff.mp h
      cases hfound
      have hcount := ih hinner
      simp only [List.count_cons, List.drop_succ_cons]
      omega

theorem count_eq_zero_of_isWordChar {word : List Char} (hword : word.all isWordChar = true) :
    word.count '"' = 0 := by
  rw [List.count_eq_zero]
  intro hmem
  exact absurd (List.all_eq_true.mp hword _ hmem) (by decide)

theorem quotes_ofWord {word : List Char} (hword : word.all isWordChar = true) :
    (ofWord word).innerQuotes + (ofWord word).outerQuotes = 0 := by
  rcases ofWord_cases word with hand | hor | hnot | hname
  · rw [hand]
    rfl
  · rw [hor]
    rfl
  · rw [hnot]
    rfl
  · simp [hname, TokenKind.innerQuotes, TokenKind.outerQuotes, count_eq_zero_of_isWordChar hword]

theorem count_first {start more : Nat} {c : Char} {rest : List Char} {kind : TokenKind}
    (hc : Text.isBlank c = false) (h : first start c rest = .ok (kind, more)) :
    (c :: rest).count '"' =
      kind.innerQuotes + kind.outerQuotes + (rest.drop more).count '"' := by
  rcases first_eq_ok_cases hc h with
    ⟨rfl, text, hquoted, rfl⟩ | ⟨hc, rfl, rfl⟩ | ⟨hne, hkind, hmore⟩
  · have hcount := count_eq_of_quoted? hquoted
    simp only [List.count_cons_self, TokenKind.innerQuotes, TokenKind.outerQuotes,
      String.toList_ofList]
    omega
  · have hword : (c :: rest.takeWhile isWordChar).all isWordChar = true := by
      simp [hc, List.all_takeWhile]
    have hsplit :
        rest.takeWhile isWordChar ++ rest.drop (rest.takeWhile isWordChar).length = rest :=
      List.prefix_iff_eq_append.mp (List.takeWhile_prefix isWordChar)
    rw [quotes_ofWord hword, ← count_eq_zero_of_isWordChar hword, ← List.count_append,
      List.cons_append, hsplit]
  · have hquotes : kind.innerQuotes + kind.outerQuotes = 0 := by
      cases kind with
      | name text quoted => cases hkind
      | _ => rfl
    rw [hquotes, Nat.zero_add, List.count_cons_of_ne hne]
    rcases hmore with rfl | ⟨rfl, hhead⟩
    · rfl
    · obtain ⟨more, rfl⟩ := List.head?_eq_some_iff.mp hhead
      simp

theorem Spells.count_eq {text : List Char} (h : Spells text kinds) :
    text.count '"' =
      (kinds.map TokenKind.innerQuotes).sum + (kinds.map TokenKind.outerQuotes).sum := by
  induction h with
  | nil => rfl
  | blank hc hrest ih =>
      rw [← ih, List.count_cons_of_ne]
      rintro rfl
      exact absurd hc (by decide)
  | token hc hfirst hrest ih =>
      rw [count_first hc hfirst, ih]
      simp only [List.map_cons, List.sum_cons]
      omega

end Token

end TagBase
