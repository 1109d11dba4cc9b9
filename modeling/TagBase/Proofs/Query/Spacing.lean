import TagBase.Proofs.Query.Reading
import TagBase.Proofs.Query.Seam

namespace TagBase

/-- The second list is the first one with some of its `and`s left out. -/
inductive Thins : List TokenKind → List TokenKind → Prop
  | nil : Thins [] []
  | keep {kind : TokenKind} {kinds others : List TokenKind} (h : Thins kinds others) :
      Thins (kind :: kinds) (kind :: others)
  | drop {kinds others : List TokenKind} (h : Thins kinds others) : Thins (.and :: kinds) others

namespace Token

/-- The text with one space in place of the three letters from each chosen byte offset on. Its first
`skip` characters belong to such letters. -/
def spacedFrom (chosen : List Nat) (start skip : Nat) : List Char → List Char
  | [] => []
  | c :: rest =>
      match skip with
      | skip + 1 => spacedFrom chosen (start + c.utf8Size) skip rest
      | 0 =>
          if start ∈ chosen then ' ' :: spacedFrom chosen (start + c.utf8Size) 2 rest
          else c :: spacedFrom chosen (start + c.utf8Size) 0 rest

def spaced (chosen : List Nat) (text : String) : String :=
  .ofList (spacedFrom chosen 0 0 text.toList)

variable {chosen : List Nat} {start skip : Nat} {text : List Char} {tokens : List Token}

theorem spacedFrom_cons_of_mem {c : Char} {rest : List Char} (h : start ∈ chosen) :
    spacedFrom chosen start 0 (c :: rest) =
      ' ' :: spacedFrom chosen (start + c.utf8Size) 2 rest := if_pos h

theorem spacedFrom_cons_of_not_mem {c : Char} {rest : List Char} (h : start ∉ chosen) :
    spacedFrom chosen start 0 (c :: rest) =
      c :: spacedFrom chosen (start + c.utf8Size) 0 rest := if_neg h

/-- From an offset on, an `and` starts wherever an offset is chosen. -/
def OnlyAnds (chosen : List Nat) (start : Nat) (tokens : List Token) : Prop :=
  ∀ offset ∈ chosen, start ≤ offset → ⟨.and, offset⟩ ∈ tokens

section OneStep

variable {c : Char} {rest : List Char}

theorem OnlyAnds.later (h : OnlyAnds chosen start tokens) (size : Nat) :
    OnlyAnds chosen (start + size) tokens :=
  fun offset hoffset hle => h offset hoffset (Nat.le_of_add_right_le hle)

theorem OnlyAnds.not_mem (h : OnlyAnds chosen start tokens)
    (hrest : scanFrom (start + c.utf8Size) skip rest = .ok tokens) : start ∉ chosen :=
  fun hstart => start_ne_of_scanFrom hrest _ (h start hstart (Nat.le_refl start)) rfl

theorem OnlyAnds.tail {kind : TokenKind} (h : OnlyAnds chosen start (⟨kind, start⟩ :: tokens)) :
    OnlyAnds chosen (start + c.utf8Size) tokens := by
  intro offset hoffset hle
  have hpos := c.utf8Size_pos
  have hmem := h offset hoffset (Nat.le_of_add_right_le hle)
  refine (List.mem_cons.mp hmem).resolve_left fun hhead => ?_
  have hsame : offset = start := congrArg Token.start hhead
  omega

theorem OnlyAnds.kind_eq {kind : TokenKind} (h : OnlyAnds chosen start (⟨kind, start⟩ :: tokens))
    (hrest : scanFrom (start + c.utf8Size) skip rest = .ok tokens) (hstart : start ∈ chosen) :
    kind = .and := by
  rcases List.mem_cons.mp (h start hstart (Nat.le_refl start)) with hhead | hmem
  · exact (congrArg Token.kind hhead).symm
  · exact absurd rfl (start_ne_of_scanFrom hrest _ hmem)

end OneStep

theorem spacedFrom_eq_append (h : scanFrom start skip text = .ok tokens)
    (hchosen : OnlyAnds chosen start tokens) :
    spacedFrom chosen start 0 text = text.take skip ++ spacedFrom chosen start skip text := by
  induction text generalizing start skip with
  | nil => simp [spacedFrom]
  | cons c rest ih =>
      cases skip with
      | zero => rfl
      | succ less =>
          have hrest : scanFrom (start + c.utf8Size) less rest = .ok tokens := h
          rw [spacedFrom_cons_of_not_mem (hchosen.not_mem hrest), ih hrest (hchosen.later _)]
          rfl

theorem seam_spacedFrom (chosen : List Nat) (start skip : Nat) (text : List Char) :
    Seam (text.drop skip) (spacedFrom chosen start skip text) := by
  induction text generalizing start skip with
  | nil => exact seam_of_head?_eq (by rw [List.drop_nil, spacedFrom])
  | cons c rest ih =>
      cases skip with
      | succ less => exact ih _ _
      | zero =>
          by_cases hstart : start ∈ chosen
          · rw [spacedFrom_cons_of_mem hstart]
            exact (parts_cons rfl (by decide) _).seam _
          · rw [spacedFrom_cons_of_not_mem hstart]
            exact seam_of_head?_eq rfl

theorem more_of_first_and {c : Char} {rest : List Char} {more : Nat}
    (hc : Text.isBlank c = false) (h : first start c rest = .ok (.and, more)) : more = 2 := by
  rcases first_eq_ok_cases hc h with ⟨-, _, -, hkind⟩ | ⟨-, rfl, hkind⟩ | ⟨-, hkind, -⟩
  · cases hkind
  · simpa using length_eq_three_of_ofWord hkind.symm
  · cases hkind

theorem spells_spacedFrom (h : scanFrom start skip text = .ok tokens)
    (hchosen : OnlyAnds chosen start tokens) :
    let kinds := (tokens.filter fun token => token.start ∉ chosen).map kind
    Spells (spacedFrom chosen start skip text) kinds ∧ Thins (tokens.map kind) kinds := by
  induction text generalizing start skip tokens with
  | nil =>
      cases h
      exact ⟨.nil, .nil⟩
  | cons c rest ih =>
      obtain ⟨less, rfl, hrest⟩ | ⟨rfl, hc, hrest⟩ |
        ⟨rfl, hc, kind, more, others, hfirst, hothers, rfl⟩ := scanFrom_cons_cases h
      · exact ih hrest (hchosen.later _)
      · obtain ⟨hspells, hthins⟩ := ih hrest (hchosen.later _)
        rw [spacedFrom_cons_of_not_mem (hchosen.not_mem hrest)]
        exact ⟨.blank hc hspells, hthins⟩
      · obtain ⟨hspells, hthins⟩ := ih hothers hchosen.tail
        by_cases hstart : start ∈ chosen
        · obtain rfl := hchosen.kind_eq hothers hstart
          obtain rfl := more_of_first_and hc hfirst
          rw [spacedFrom_cons_of_mem hstart, List.filter_cons_of_neg (by simpa using hstart)]
          exact ⟨.blank rfl hspells, .drop hthins⟩
        · rw [spacedFrom_cons_of_not_mem hstart, List.filter_cons_of_pos (by simpa using hstart),
            spacedFrom_eq_append hothers hchosen.tail]
          have hseam := seam_spacedFrom chosen (start + c.utf8Size) more rest
          have hkept := first_take_append hseam hfirst
          have hlength := List.length_take_of_le (more_le_of_first hc hfirst)
          exact ⟨.token hc hkept (by rwa [List.drop_left' hlength]), .keep hthins⟩

end Token

namespace Query

/-- A term or an `and` is to come before a group is closed. -/
def GoesOn (kinds : List TokenKind) : Prop := ∃ next ∈ kinds.head?, next ≠ .closeGroup

theorem Reads.and_of_goesOn {groups : List (Option Query)} {before query : Query}
    {kinds : List TokenKind} (h : Reads groups (some before) kinds query) (hgoes : GoesOn kinds) :
    Reads groups (some before) (.and :: kinds) query := by
  obtain ⟨next, hnext, hclose⟩ := hgoes
  obtain ⟨more, rfl⟩ := List.head?_eq_some_iff.mp hnext
  exact .and hclose h

theorem Reads.thin {groups : List (Option Query)} {before : Option Query}
    {kinds others : List TokenKind} {query : Query} (h : Reads groups before kinds query)
    (hthins : Thins kinds others) :
    Reads groups before others query ∧ (GoesOn kinds → GoesOn others) := by
  induction h generalizing others with
  | nothing =>
      cases hthins
      exact ⟨.nothing, id⟩
  | done =>
      cases hthins
      exact ⟨.done, id⟩
  | openGroup _ ih =>
      cases hthins with
      | keep hthins => exact ⟨.openGroup (ih hthins).1, id⟩
  | closeGroup _ ih =>
      cases hthins with
      | keep hthins => exact ⟨.closeGroup (ih hthins).1, id⟩
  | and hnext _ ih =>
      cases hthins with
      | keep hthins =>
          obtain ⟨hreads, hgoes⟩ := ih hthins
          exact ⟨hreads.and_of_goesOn (hgoes ⟨_, rfl, hnext⟩), id⟩
      | drop hthins =>
          obtain ⟨hreads, hgoes⟩ := ih hthins
          exact ⟨hreads, fun _ => hgoes ⟨_, rfl, hnext⟩⟩
  | compared _ ih =>
      match hthins with
      | .keep (.keep (.keep hthins)) => exact ⟨.compared (ih hthins).1, id⟩
  | tagged _ _ ih =>
      cases hthins with
      | keep hthins =>
          obtain ⟨hreads, -⟩ := ih hthins
          exact ⟨.tagged hreads.head?_ne_operator hreads, id⟩

/-- With a space in place of any of its `and`s a text that is read has all its other tokens, and is
read as the same query. -/
theorem read_spaced {text : String} {query : Query} (h : read text = .ok query) :
    ∃ tokens, Token.scan text = .ok tokens ∧
      ∀ chosen : List Nat, (∀ start ∈ chosen, ⟨.and, start⟩ ∈ tokens) →
        (∃ others, Token.scan (Token.spaced chosen text) = .ok others ∧
          others.map Token.kind =
            (tokens.filter fun token => token.start ∉ chosen).map Token.kind) ∧
        read (Token.spaced chosen text) = .ok query := by
  obtain ⟨tokens, hscan, hreads⟩ := exists_scan_of_read h
  refine ⟨tokens, hscan, fun chosen hchosen => ?_⟩
  obtain ⟨hspells, hthins⟩ :=
    Token.spells_spacedFrom hscan fun start hstart _ => hchosen start hstart
  have hspaced : (Token.spaced chosen text).toList = Token.spacedFrom chosen 0 0 text.toList :=
    String.toList_ofList
  rw [← hspaced] at hspells
  exact ⟨Token.exists_scanFrom_of_spells hspells,
    read_eq_ok_iff.mpr ⟨_, hspells, (hreads.thin hthins).1⟩⟩

theorem read_spaced_neighbours :
    let text := "(λ)aNd(\"and\"AND b<2 and c)and and d"
    let tokens : List Token := [⟨.openGroup, 0⟩, ⟨.name "λ" false, 1⟩, ⟨.closeGroup, 3⟩, ⟨.and, 4⟩,
      ⟨.openGroup, 7⟩, ⟨.name "and" true, 8⟩, ⟨.and, 13⟩, ⟨.name "b" false, 17⟩,
      ⟨.operator .lt, 18⟩, ⟨.name "2" false, 19⟩, ⟨.and, 21⟩, ⟨.name "c" false, 25⟩,
      ⟨.closeGroup, 26⟩, ⟨.and, 27⟩, ⟨.and, 31⟩, ⟨.name "d" false, 35⟩]
    let query : Query := .both (.both (.tagged "λ")
      (.both (.both (.tagged "and") (.valued "b" .lt "2")) (.tagged "c"))) (.tagged "d")
    let chosen := [4, 13, 31]
    read text = .ok query ∧ Token.scan text = .ok tokens ∧
      (∀ start ∈ chosen, ⟨.and, start⟩ ∈ tokens) ∧
      Token.spaced chosen text = "(λ) (\"and\"  b<2 and c)and   d" ∧
      read (Token.spaced chosen text) = .ok query := by
  intro text tokens query chosen
  have hread : read text = .ok query := by decide +kernel
  have hscan : Token.scan text = .ok tokens := by decide +kernel
  have hchosen : ∀ start ∈ chosen, ⟨.and, start⟩ ∈ tokens := by decide
  obtain ⟨scanned, hscanned, hspaced⟩ := read_spaced hread
  obtain rfl : tokens = scanned := Except.ok.inj (hscan.symm.trans hscanned)
  exact ⟨hread, hscan, hchosen, by decide +kernel, (hspaced chosen hchosen).2⟩

end Query

end TagBase
