import TagBase.Proofs.Query.Spelling

namespace TagBase

namespace Token

theorem ne_backslash {c : Char} {rest : List Char}
    (hescape : ∀ next others, c = '\\' → rest = next :: others → False)
    (hlast : c = '\\' → rest = [] → False) : c ≠ '\\' := by
  rintro rfl
  cases rest with
  | nil => exact hlast rfl rfl
  | cons next others => exact hescape next others rfl rfl

theorem quoted?_take_append {rest text : List Char} {length : Nat}
    (h : quoted? rest = some (text, length)) (others : List Char) :
    quoted? (rest.take length ++ others) = some (text, length) ∧ length ≤ rest.length := by
  fun_induction quoted? rest generalizing text length with
  | case1 => cases h
  | case2 rest =>
      cases h
      exact ⟨rfl, by simp⟩
  | case3 c rest ih =>
      obtain ⟨⟨inner, more⟩, hinner, hfound⟩ := Option.map_eq_some_iff.mp h
      cases hfound
      obtain ⟨happend, hlength⟩ := ih hinner
      refine ⟨?_, Nat.add_le_add_right hlength 2⟩
      simp [quoted?, happend]
  | case4 => cases h
  | case5 c rest hquote hescape hlast ih =>
      obtain ⟨⟨inner, more⟩, hinner, hfound⟩ := Option.map_eq_some_iff.mp h
      cases hfound
      obtain ⟨happend, hlength⟩ := ih hinner
      have hplain : c ≠ '\\' := ne_backslash hescape hlast
      refine ⟨?_, Nat.add_le_add_right hlength 1⟩
      rw [List.take_succ_cons, List.cons_append, quoted?_cons hquote hplain, happend]
      rfl

/-- A token that ends in front of the one text ends in front of the other one too. -/
structure Seam (rest others : List Char) : Prop where
  any_isWordChar : others.head?.any isWordChar = true → rest.head?.any isWordChar = true
  head?_eq_equals : others.head? = some '=' → rest.head? = some '='

/-- No token in front of the text reaches into it. -/
structure Parts (rest : List Char) : Prop where
  takeWhile_eq_nil : rest.takeWhile isWordChar = []
  head?_ne_equals : rest.head? ≠ some '='

theorem parts_cons {c : Char} (hword : isWordChar c = false) (hequals : c ≠ '=')
    (rest : List Char) : Parts (c :: rest) := by
  constructor
  · rw [List.takeWhile_cons_of_neg (by simp [hword])]
  · simpa using hequals

theorem seam_of_head?_eq {rest others : List Char} (h : others.head? = rest.head?) :
    Seam rest others := ⟨fun hword => h ▸ hword, fun hequals => h ▸ hequals⟩

theorem Parts.seam {others : List Char} (h : Parts others) (rest : List Char) :
    Seam rest others := by
  refine ⟨fun hword => ?_, fun hequals => absurd hequals h.head?_ne_equals⟩
  cases others with
  | nil => cases hword
  | cons c others =>
      have hc : isWordChar c = true := hword
      have hnil := h.takeWhile_eq_nil
      rw [List.takeWhile_cons_of_pos hc] at hnil
      cases hnil

theorem more_of_first_sign {start more : Nat} {c : Char} {rest : List Char} {kind : TokenKind}
    (hopen : c ≠ '(') (hclose : c ≠ ')') (hquote : c ≠ '"') (hspecial : isSpecial c = true)
    (h : first start c rest = .ok (kind, more)) :
    more = if rest.head? = some '=' then 1 else 0 := by
  rw [first, if_neg hopen, if_neg hclose, if_neg hquote, if_pos hspecial] at h
  split at h
  · rename_i hequals
    obtain ⟨op, -, hok⟩ := bind_eq_ok_iff.mp h
    cases hok
    rw [if_pos hequals]
  · rename_i hequals
    rw [if_neg hequals]
    split at h
    · cases h
      rfl
    · obtain ⟨op, -, hok⟩ := bind_eq_ok_iff.mp h
      cases hok
      rfl

theorem first_sign_take_append {start more : Nat} {c : Char} {rest others : List Char}
    {kind : TokenKind} (hquote : c ≠ '"') (hspecial : isSpecial c = true)
    (hseam : Seam (rest.drop more) others) (h : first start c rest = .ok (kind, more)) :
    first start c (rest.take more ++ others) = .ok (kind, more) := by
  rcases eq_or_ne c '(' with rfl | hopen
  · exact h
  rcases eq_or_ne c ')' with rfl | hclose
  · exact h
  have hmore := more_of_first_sign hopen hclose hquote hspecial h
  have hhead : (rest.take more ++ others).head? = some '=' ↔ rest.head? = some '=' := by
    split at hmore
    · rename_i hequals
      obtain ⟨tail, rfl⟩ := List.head?_eq_some_iff.mp hequals
      simp [hmore]
    · rename_i hequals
      subst hmore
      exact iff_of_false (mt hseam.head?_eq_equals hequals) hequals
  rw [← h]
  simp only [first, hquote, hspecial, hhead, if_true, if_false]

theorem any_isWordChar_drop_takeWhile (rest : List Char) :
    (rest.drop (rest.takeWhile isWordChar).length).head?.any isWordChar = false := by
  induction rest with
  | nil => rfl
  | cons c rest ih =>
      rw [List.takeWhile_cons]
      split
      · exact ih
      · rename_i hc
        simpa using hc

theorem first_take_append {start more : Nat} {c : Char} {rest others : List Char}
    {kind : TokenKind} (hseam : Seam (rest.drop more) others)
    (h : first start c rest = .ok (kind, more)) :
    first start c (rest.take more ++ others) = .ok (kind, more) := by
  rcases eq_or_ne c '"' with rfl | hquote
  · cases hquoted : quoted? rest with
    | none => simp [first, hquoted] at h
    | some found =>
        obtain ⟨text, length⟩ := found
        obtain ⟨rfl, rfl⟩ : TokenKind.name (.ofList text) true = kind ∧ length = more := by
          simpa [first, hquoted] using h
        simp [first, (quoted?_take_append hquoted others).1]
  cases hspecial : isSpecial c with
  | true => exact first_sign_take_append hquote hspecial hseam h
  | false =>
      rw [first_word start hspecial] at h ⊢
      cases h
      have hword : rest.take (rest.takeWhile isWordChar).length = rest.takeWhile isWordChar :=
        (List.prefix_iff_eq_take.mp (List.takeWhile_prefix isWordChar)).symm
      have hend : others.head?.any isWordChar = false := by
        rw [← Bool.not_eq_true]
        refine mt hseam.any_isWordChar ?_
        rw [any_isWordChar_drop_takeWhile]
        exact Bool.false_ne_true
      rw [hword, takeWhile_word_append List.all_takeWhile hend]

theorem first_append {start more : Nat} {c : Char} {rest others : List Char}
    {kind : TokenKind} (hothers : Parts others) (h : first start c rest = .ok (kind, more)) :
    first start c (rest ++ others) = .ok (kind, more) := by
  have hseam : Seam (rest.drop more) (rest.drop more ++ others) := by
    cases rest.drop more with
    | nil => exact hothers.seam []
    | cons => exact seam_of_head?_eq rfl
  have hfirst := first_take_append hseam h
  rwa [← List.append_assoc, List.take_append_drop] at hfirst

theorem more_le_of_first {start more : Nat} {c : Char} {rest : List Char} {kind : TokenKind}
    (hc : Text.isBlank c = false) (h : first start c rest = .ok (kind, more)) :
    more ≤ rest.length := by
  rcases first_eq_ok_cases hc h with
    ⟨-, text, hquoted, -⟩ | ⟨-, rfl, -⟩ | ⟨-, -, rfl | ⟨rfl, hhead⟩⟩
  · exact (quoted?_take_append hquoted []).2
  · exact (List.takeWhile_prefix isWordChar).length_le
  · exact Nat.zero_le _
  · obtain ⟨others, rfl⟩ := List.head?_eq_some_iff.mp hhead
    simp

/-- A text spells in front of another one what it spells alone. -/
theorem Spells.append {text rest : List Char} {kinds others : List TokenKind}
    (h : Spells text kinds) (hparts : Parts rest) (hrest : Spells rest others) :
    Spells (text ++ rest) (kinds ++ others) := by
  induction h with
  | nil => exact hrest
  | blank hc _ ih => exact .blank hc ih
  | token hc hfirst _ ih =>
      rw [← List.drop_append_of_le_length (more_le_of_first hc hfirst)] at ih
      exact .token hc (first_append hparts hfirst) ih

end Token

end TagBase
