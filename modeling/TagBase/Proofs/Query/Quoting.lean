import TagBase.Proofs.Query.Seam
import TagBase.Proofs.Text.Bytes

namespace TagBase

namespace Token

inductive Place where
  | outside
  | inside
  /-- Inside a phrase, behind a backslash that counts. -/
  | escaped
deriving DecidableEq

namespace Place

def next (place : Place) (c : Char) : Place :=
  match place with
  | .outside => if c = '"' then .inside else .outside
  | .inside => if c = '"' then .outside else if c = '\\' then .escaped else .inside
  | .escaped => .inside

def after (place : Place) (text : List Char) : Place := text.foldl next place

@[simp] theorem after_cons (place : Place) (c : Char) (rest : List Char) :
    place.after (c :: rest) = (place.next c).after rest := rfl

@[simp] theorem after_append (place : Place) (text rest : List Char) :
    place.after (text ++ rest) = (place.after text).after rest := List.foldl_append

theorem next_outside {c : Char} (h : c ≠ '"') : next .outside c = .outside := if_neg h

theorem next_inside {c : Char} (hquote : c ≠ '"') (hescape : c ≠ '\\') :
    next .inside c = .inside := by
  rw [next, if_neg hquote, if_neg hescape]

theorem after_outside {text : List Char} (h : '"' ∉ text) : after .outside text = .outside := by
  induction text with
  | nil => rfl
  | cons c rest ih =>
      obtain ⟨hc, hrest⟩ := List.ne_and_not_mem_of_not_mem_cons h
      rw [after_cons, next_outside hc.symm, ih hrest]

/-- Every quote that is still to come is escaped. -/
def NeverCloses (place : Place) (text : List Char) : Prop :=
  ∀ inner later, text = inner ++ '"' :: later → place.after inner = .escaped

theorem neverCloses_nil (place : Place) : place.NeverCloses [] := by
  intro inner later h
  cases inner <;> cases h

theorem neverCloses_cons_iff {place : Place} {c : Char} {rest : List Char} :
    place.NeverCloses (c :: rest) ↔
      (c = '"' → place = .escaped) ∧ (place.next c).NeverCloses rest := by
  constructor
  · intro h
    refine ⟨?_, fun inner later hrest => h (c :: inner) later (congrArg (c :: ·) hrest)⟩
    rintro rfl
    exact h [] rest rfl
  · rintro ⟨hc, hrest⟩ inner later h
    cases inner with
    | nil => exact hc (List.cons_eq_cons.mp h).1
    | cons d inner =>
        obtain ⟨rfl, hinner⟩ := List.cons_eq_cons.mp h
        exact hrest inner later hinner

theorem NeverCloses.after_ne {place : Place} {text : List Char} (h : place.NeverCloses text)
    (hplace : place ≠ .outside) : place.after text ≠ .outside := by
  induction text generalizing place with
  | nil => exact hplace
  | cons c rest ih =>
      obtain ⟨hc, hrest⟩ := neverCloses_cons_iff.mp h
      refine ih hrest ?_
      cases place with
      | outside => exact absurd rfl hplace
      | inside =>
          have hquote : c ≠ '"' := fun hquote => by cases hc hquote
          rw [next, if_neg hquote]
          split <;> decide
      | escaped => exact nofun

end Place

/-- At a byte offset a quote opens a phrase that no later quote closes. -/
def UnclosedAt (text : List Char) (start : Nat) : Prop :=
  ∃ before rest, text = before ++ '"' :: rest ∧ Text.size before = start ∧
    Place.outside.after before = .outside ∧ Place.inside.NeverCloses rest

theorem UnclosedAt.after_ne {text : List Char} {start : Nat} (h : UnclosedAt text start) :
    Place.outside.after text ≠ .outside := by
  obtain ⟨before, rest, rfl, -, hbefore, hrest⟩ := h
  rw [Place.after_append, hbefore]
  change Place.inside.after rest ≠ .outside
  exact hrest.after_ne nofun

theorem eq_nil_of_neverCloses {before inner rest later : List Char}
    (hbefore : Place.outside.after before = .outside)
    (hother : Place.outside.after (before ++ inner) = .outside)
    (h : Place.inside.NeverCloses rest) (hrest : '"' :: rest = inner ++ '"' :: later) :
    inner = [] := by
  cases inner with
  | nil => rfl
  | cons c inner =>
      obtain ⟨rfl, hinner⟩ := List.cons_eq_cons.mp hrest
      rw [Place.after_append, hbefore] at hother
      cases (h inner later hinner).symm.trans hother

theorem UnclosedAt.unique {text : List Char} {start other : Nat} (h : UnclosedAt text start)
    (hother : UnclosedAt text other) : start = other := by
  obtain ⟨before, rest, rfl, rfl, hbefore, hrest⟩ := h
  obtain ⟨before', rest', htext, rfl, hbefore', hrest'⟩ := hother
  rcases List.append_eq_append_iff.mp htext with ⟨inner, rfl, hsame⟩ | ⟨inner, rfl, hsame⟩
  · rw [eq_nil_of_neverCloses hbefore hbefore' hrest hsame, List.append_nil]
  · rw [eq_nil_of_neverCloses hbefore' hbefore hrest' hsame, List.append_nil]

theorem neverCloses_backslash {rest : List Char} (h : Place.escaped.NeverCloses rest) :
    Place.inside.NeverCloses ('\\' :: rest) :=
  Place.neverCloses_cons_iff.mpr ⟨fun hc => absurd hc (by decide), h⟩

theorem quoted?_cases (rest : List Char) :
    (∃ text length, quoted? rest = some (text, length) ∧
      Place.inside.after (rest.take length) = .outside) ∨
    (quoted? rest = none ∧ Place.inside.NeverCloses rest) := by
  fun_induction quoted? rest with
  | case1 => exact .inr ⟨rfl, Place.neverCloses_nil _⟩
  | case2 rest => exact .inl ⟨[], 1, rfl, rfl⟩
  | case3 c rest ih =>
      rcases ih with ⟨text, length, hquoted, hafter⟩ | ⟨hquoted, hnever⟩
      · exact .inl ⟨c :: text, length + 2, by rw [hquoted, Option.map_some], hafter⟩
      · refine .inr ⟨by rw [hquoted, Option.map_none], ?_⟩
        exact neverCloses_backslash (Place.neverCloses_cons_iff.mpr ⟨fun _ => rfl, hnever⟩)
  | case4 => exact .inr ⟨rfl, neverCloses_backslash (Place.neverCloses_nil _)⟩
  | case5 c rest hquote hescape hlast ih =>
      have hinside : Place.inside.next c = .inside :=
        Place.next_inside hquote (ne_backslash hescape hlast)
      rcases ih with ⟨text, length, hquoted, hafter⟩ | ⟨hquoted, hnever⟩
      · refine .inl ⟨c :: text, length + 1, by rw [hquoted, Option.map_some], ?_⟩
        rw [List.take_succ_cons, Place.after_cons, hinside, hafter]
      · refine .inr ⟨by rw [hquoted, Option.map_none], Place.neverCloses_cons_iff.mpr ?_⟩
        rw [hinside]
        exact ⟨fun hc => absurd hc hquote, hnever⟩

theorem UnclosedAt.append {before rest : List Char} {offset : Nat}
    (hbefore : Place.outside.after before = .outside) (h : UnclosedAt rest offset) :
    UnclosedAt (before ++ rest) (Text.size before + offset) := by
  obtain ⟨more, later, rfl, rfl, hmore, hlater⟩ := h
  refine ⟨before ++ more, later, (List.append_assoc _ _ _).symm, Text.size_append _ _, ?_, hlater⟩
  rw [Place.after_append, hbefore, hmore]

theorem ne_quote_of_isBlank {c : Char} (hc : Text.isBlank c = true) : c ≠ '"' := by
  rintro rfl
  exact absurd hc (by decide)

theorem quote_not_mem_of_isWordChar {word : List Char} (hword : word.all isWordChar = true) :
    '"' ∉ word := List.count_eq_zero.mp (count_eq_zero_of_isWordChar hword)

theorem after_first {start more : Nat} {c : Char} {rest : List Char} {kind : TokenKind}
    (hc : Text.isBlank c = false) (h : first start c rest = .ok (kind, more)) :
    Place.outside.after (c :: rest.take more) = .outside := by
  rcases first_eq_ok_cases hc h with
    ⟨rfl, text, hquoted, -⟩ | ⟨hword, rfl, -⟩ | ⟨hne, -, rfl | ⟨rfl, hhead⟩⟩
  · rcases quoted?_cases rest with ⟨text', length, hother, hafter⟩ | ⟨hnone, -⟩
    · cases hquoted.symm.trans hother
      exact hafter
    · cases hquoted.symm.trans hnone
  · have htake : rest.take (rest.takeWhile isWordChar).length = rest.takeWhile isWordChar :=
      (List.prefix_iff_eq_take.mp (List.takeWhile_prefix isWordChar)).symm
    rw [htake]
    exact Place.after_outside
      (quote_not_mem_of_isWordChar (by rw [List.all_cons, hword, List.all_takeWhile]; rfl))
  · exact Place.next_outside hne
  · obtain ⟨others, rfl⟩ := List.head?_eq_some_iff.mp hhead
    rw [List.take_succ_cons, List.take_zero, Place.after_cons, Place.next_outside hne]
    rfl

theorem Spells.after_eq {text : List Char} {kinds : List TokenKind} (h : Spells text kinds) :
    Place.outside.after text = .outside := by
  induction h with
  | nil => rfl
  | blank hc _ ih => rw [Place.after_cons, Place.next_outside (ne_quote_of_isBlank hc), ih]
  | @token start more c rest kind kinds hc hfirst _ ih =>
      have hsplit : c :: rest = (c :: rest.take more) ++ rest.drop more := by simp
      rw [hsplit, Place.after_append, after_first hc hfirst, ih]

theorem exists_ofSymbol_sign {c : Char} (hspecial : isSpecial c = true) (hopen : c ≠ '(')
    (hclose : c ≠ ')') (hquote : c ≠ '"') :
    (∃ op, Operator.ofSymbol (.ofList [c, '=']) = .ok op) ∧
      (c ≠ '!' → ∃ op, Operator.ofSymbol (.ofList [c]) = .ok op) := by
  have hsign : c = '=' ∨ c = '!' ∨ c = '<' ∨ c = '>' := by
    simpa [isSpecial, hopen, hclose, hquote, or_assoc] using hspecial
  rcases hsign with rfl | rfl | rfl | rfl
  · exact ⟨⟨.eq, rfl⟩, fun _ => ⟨.eq, rfl⟩⟩
  · exact ⟨⟨.ne, rfl⟩, fun h => absurd rfl h⟩
  · exact ⟨⟨.le, rfl⟩, fun _ => ⟨.lt, rfl⟩⟩
  · exact ⟨⟨.ge, rfl⟩, fun _ => ⟨.gt, rfl⟩⟩

theorem first_eq_error {start : Nat} {c : Char} {rest : List Char} {error : Error}
    (h : first start c rest = .error error) :
    c = '"' ∧ quoted? rest = none ∧ error = .query (.unclosedQuote start) := by
  rw [first] at h
  split at h
  · cases h
  split at h
  · cases h
  split at h
  · rename_i hquote
    split at h
    · cases h
    · rename_i hnone
      cases h
      exact ⟨hquote, hnone, rfl⟩
  split at h
  · rename_i hopen hclose hquote hspecial
    obtain ⟨⟨long, hlong⟩, hshort⟩ := exists_ofSymbol_sign hspecial hopen hclose hquote
    split at h
    · rw [hlong] at h
      cases h
    split at h
    · cases h
    · rename_i hbang
      obtain ⟨short, hshort⟩ := hshort hbang
      rw [hshort] at h
      cases h
  · cases h

theorem unclosedAt_of_scanFrom {start skip : Nat} {text : List Char} {error : Error}
    (h : scanFrom start skip text = .error error) :
    ∃ offset, UnclosedAt (text.drop skip) offset ∧
      error = .query (.unclosedQuote (start + Text.size (text.take skip) + offset)) := by
  induction text generalizing start skip with
  | nil => cases h
  | cons c rest ih =>
      cases skip with
      | succ less =>
          obtain ⟨offset, hunclosed, rfl⟩ := ih h
          refine ⟨offset, hunclosed, ?_⟩
          rw [List.take_succ_cons, Text.size_cons, Nat.add_assoc start]
      | zero =>
          rw [scanFrom_cons] at h
          split at h
          · rename_i hc
            obtain ⟨offset, hunclosed, rfl⟩ := ih h
            have hblank : Place.outside.after [c] = .outside :=
              Place.next_outside (ne_quote_of_isBlank hc)
            exact ⟨_, hunclosed.append hblank, by simp [Nat.add_assoc]⟩
          rename_i hc
          rcases bind_eq_error_iff.mp h with hfirst | ⟨⟨kind, more⟩, hfirst, h⟩
          · obtain ⟨rfl, hquoted, rfl⟩ := first_eq_error hfirst
            rcases quoted?_cases rest with ⟨text, length, hother, -⟩ | ⟨-, hnever⟩
            · cases hquoted.symm.trans hother
            · exact ⟨0, ⟨[], rest, rfl, rfl, rfl, hnever⟩, rfl⟩
          · obtain ⟨offset, hunclosed, rfl⟩ : ∃ offset, UnclosedAt (rest.drop more) offset ∧
                error = .query (.unclosedQuote
                  (start + c.utf8Size + Text.size (rest.take more) + offset)) := by
              rcases bind_eq_error_iff.mp h with hrest | ⟨others, -, h⟩
              · exact ih hrest
              · cases h
            have htoken := after_first (by simpa using hc) hfirst
            have happend := hunclosed.append htoken
            rw [List.cons_append, List.take_append_drop] at happend
            exact ⟨_, happend, by simp [Nat.add_assoc]⟩

theorem scan_eq_error_iff {text : String} {error : Error} :
    scan text = .error error ↔
      ∃ start, UnclosedAt text.toList start ∧ error = .query (.unclosedQuote start) := by
  have hreport : ∀ {error}, scan text = .error error →
      ∃ start, UnclosedAt text.toList start ∧ error = .query (.unclosedQuote start) := by
    intro error h
    obtain ⟨offset, hunclosed, rfl⟩ := unclosedAt_of_scanFrom h
    exact ⟨offset, hunclosed, by simp⟩
  refine ⟨hreport, ?_⟩
  rintro ⟨start, hunclosed, rfl⟩
  cases hscan : scan text with
  | ok tokens => exact absurd (spells_of_scanFrom hscan).after_eq hunclosed.after_ne
  | error error =>
      obtain ⟨other, hother, rfl⟩ := hreport hscan
      rw [hunclosed.unique hother]

end Token

end TagBase
