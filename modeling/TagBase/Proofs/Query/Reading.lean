import TagBase.Proofs.Query.Spelling
import TagBase.Query.Reader

namespace TagBase

namespace Query

/-- Tokens of the given kinds read on to a query, inside groups before which so much was asked, the
innermost first, and after what the conjunction at hand has asked. -/
inductive Reads : List (Option Query) → Option Query → List TokenKind → Query → Prop
  | nothing : Reads [] none [] .everything
  | done {query : Query} : Reads [] (some query) [] query
  | openGroup {outer : List (Option Query)} {before : Option Query} {kinds : List TokenKind}
      {query : Query} (hrest : Reads (before :: outer) none kinds query) :
      Reads outer before (.openGroup :: kinds) query
  | closeGroup {outer : List (Option Query)} {before : Option Query} {inner query : Query}
      {kinds : List TokenKind} (hrest : Reads outer (some (after before inner)) kinds query) :
      Reads (before :: outer) (some inner) (.closeGroup :: kinds) query
  | and {outer : List (Option Query)} {before query : Query} {next : TokenKind}
      {kinds : List TokenKind} (hnext : next ≠ .closeGroup)
      (hrest : Reads outer (some before) (next :: kinds) query) :
      Reads outer (some before) (.and :: next :: kinds) query
  | compared {outer : List (Option Query)} {before : Option Query} {tag value : String}
      {op : Operator} {tagQuoted quoted : Bool} {kinds : List TokenKind} {query : Query}
      (hrest : Reads outer (some (after before (comparing tag op value quoted))) kinds query) :
      Reads outer before (.name tag tagQuoted :: .operator op :: .name value quoted :: kinds) query
  | tagged {outer : List (Option Query)} {before : Option Query} {tag : String} {quoted : Bool}
      {kinds : List TokenKind} {query : Query} (hnext : ∀ op, kinds.head? ≠ some (.operator op))
      (hrest : Reads outer (some (after before (.tagged tag))) kinds query) :
      Reads outer before (.name tag quoted :: kinds) query

theorem Reads.head?_ne_operator {groups : List (Option Query)} {before : Option Query}
    {kinds : List TokenKind} {query : Query} (h : Reads groups before kinds query)
    (op : Operator) : kinds.head? ≠ some (.operator op) := by
  cases h <;> simp

theorem Reads.head?_ne_closeGroup {groups : List (Option Query)} {kinds : List TokenKind}
    {query : Query} (h : Reads groups none kinds query) : kinds.head? ≠ some .closeGroup := by
  cases h <;> simp

theorem finish_eq_ok_iff {groups : List OpenGroup} {before : Option Query} {query : Query} :
    finish groups before = .ok query ↔ Reads (groups.map OpenGroup.before) before [] query := by
  constructor
  · intro h
    cases groups with
    | nil =>
        cases before with
        | none => cases h; exact .nothing
        | some before => cases h; exact .done
    | cons group outer => cases before <;> cases h
  · intro h
    generalize hgroups : groups.map OpenGroup.before = outer at h
    generalize hkinds : ([] : List TokenKind) = kinds at h
    cases h <;> simp_all [finish]

theorem reads_of_readFrom {groups : List OpenGroup} {before : Option Query} {tokens : List Token}
    {query : Query} (h : readFrom groups before tokens = .ok query) :
    Reads (groups.map OpenGroup.before) before (tokens.map Token.kind) query := by
  fun_induction readFrom groups before tokens with
  | case1 groups before => exact finish_eq_ok_iff.mp h
  | case2 groups before token rest hkind ih =>
      rw [List.map_cons, hkind]
      exact .openGroup (ih h)
  | case5 token rest hkind group outer inner ih =>
      rw [List.map_cons, List.map_cons, hkind]
      exact .closeGroup (ih h)
  | case9 groups token hkind before next rest hnext ih =>
      rw [List.map_cons, hkind]
      exact .and hnext (ih h)
  | case15 groups before token tag tagQuoted hkind op _ value quoted _ rest ih =>
      rw [List.map_cons, hkind]
      exact .compared (ih h)
  | case17 groups before token tag quoted hkind rest hlast hvalue hoperator ih =>
      rw [List.map_cons, hkind]
      refine .tagged ?_ (ih h)
      intro op hop
      cases rest with
      | nil => cases hop
      | cons next rest =>
          obtain ⟨kind, start⟩ := next
          obtain rfl : kind = .operator op := by simpa using hop
          cases rest with
          | nil => exact hlast op start rfl
          | cons other rest => exact hoperator op start other rest rfl
  | _ => contradiction

theorem readFrom_tagged {token : Token} {tag : String} {quoted : Bool} {rest : List Token}
    (hkind : token.kind = .name tag quoted)
    (hnext : ∀ op, (rest.map Token.kind).head? ≠ some (.operator op)) (groups : List OpenGroup)
    (before : Option Query) :
    readFrom groups before (token :: rest) =
      readFrom groups (some (after before (.tagged tag))) rest := by
  rw [readFrom.eq_def]
  simp only [hkind]
  split
  · rename_i op _
    exact absurd rfl (hnext op)
  · rename_i op _ _ _ _ _
    exact absurd rfl (hnext op)
  · rename_i op _ _ _ _
    exact absurd rfl (hnext op)
  · rfl

/-- Tokens that are read to a query leave all groups closed behind them: further tokens are read as
at the top, after what the first ones have asked. -/
theorem exists_readFrom_append {groups : List OpenGroup} {before : Option Query}
    {tokens : List Token} {query : Query}
    (h : Reads (groups.map OpenGroup.before) before (tokens.map Token.kind) query) :
    ∃ asked, finish [] asked = .ok query ∧
      ∀ rest : List Token, (∀ op, (rest.map Token.kind).head? ≠ some (.operator op)) →
        readFrom groups before (tokens ++ rest) = readFrom [] asked rest := by
  generalize houter : groups.map OpenGroup.before = outer at h
  generalize hkinds : tokens.map Token.kind = kinds at h
  induction h generalizing groups tokens with
  | nothing =>
      obtain rfl := List.map_eq_nil_iff.mp houter
      obtain rfl := List.map_eq_nil_iff.mp hkinds
      exact ⟨none, rfl, fun _ _ => rfl⟩
  | done =>
      obtain rfl := List.map_eq_nil_iff.mp houter
      obtain rfl := List.map_eq_nil_iff.mp hkinds
      exact ⟨some _, rfl, fun _ _ => rfl⟩
  | @openGroup _ before _ _ hrest ih =>
      obtain ⟨token, others, rfl, hkind, rfl⟩ := List.map_eq_cons_iff.mp hkinds
      obtain ⟨asked, hasked, happend⟩ :=
        @ih (⟨token.start, before⟩ :: groups) _ (by simp [houter]) rfl
      refine ⟨asked, hasked, fun rest hnext => ?_⟩
      rw [List.cons_append, readFrom.eq_def]
      simp only [hkind]
      exact happend rest hnext
  | closeGroup hrest ih =>
      obtain ⟨group, groups, rfl, rfl, rfl⟩ := List.map_eq_cons_iff.mp houter
      obtain ⟨token, others, rfl, hkind, rfl⟩ := List.map_eq_cons_iff.mp hkinds
      obtain ⟨asked, hasked, happend⟩ := ih rfl rfl
      refine ⟨asked, hasked, fun rest hnext => ?_⟩
      rw [List.cons_append, readFrom.eq_def]
      simp only [hkind]
      exact happend rest hnext
  | and hclose hrest ih =>
      obtain ⟨token, others, rfl, hkind, hothers⟩ := List.map_eq_cons_iff.mp hkinds
      obtain ⟨next, more, rfl, rfl, rfl⟩ := List.map_eq_cons_iff.mp hothers
      obtain ⟨asked, hasked, happend⟩ := @ih groups (next :: more) houter rfl
      refine ⟨asked, hasked, fun rest hnext => ?_⟩
      rw [List.cons_append, List.cons_append, readFrom.eq_def]
      simp only [hkind, if_neg hclose]
      exact happend rest hnext
  | compared hrest ih =>
      obtain ⟨token, others, rfl, hkind, hothers⟩ := List.map_eq_cons_iff.mp hkinds
      obtain ⟨⟨_, _⟩, more, rfl, rfl, hmore⟩ := List.map_eq_cons_iff.mp hothers
      obtain ⟨⟨_, _⟩, more, rfl, rfl, rfl⟩ := List.map_eq_cons_iff.mp hmore
      obtain ⟨asked, hasked, happend⟩ := ih houter rfl
      refine ⟨asked, hasked, fun rest hnext => ?_⟩
      rw [List.cons_append, List.cons_append, List.cons_append, readFrom.eq_def]
      simp only [hkind]
      exact happend rest hnext
  | tagged hoperator hrest ih =>
      obtain ⟨token, others, rfl, hkind, rfl⟩ := List.map_eq_cons_iff.mp hkinds
      obtain ⟨asked, hasked, happend⟩ := ih houter rfl
      refine ⟨asked, hasked, fun rest hnext => ?_⟩
      have hnext' : ∀ op, ((others ++ rest).map Token.kind).head? ≠ some (.operator op) := by
        intro op
        cases others with
        | nil => exact hnext op
        | cons => exact hoperator op
      rw [List.cons_append, readFrom_tagged hkind hnext', happend rest hnext]

theorem readFrom_of_reads {groups : List OpenGroup} {before : Option Query} {tokens : List Token}
    {query : Query}
    (h : Reads (groups.map OpenGroup.before) before (tokens.map Token.kind) query) :
    readFrom groups before tokens = .ok query := by
  obtain ⟨asked, hasked, happend⟩ := exists_readFrom_append h
  have hread := happend [] (by simp)
  rw [List.append_nil] at hread
  exact hread.trans hasked

theorem ofTokens_eq_ok_iff {tokens : List Token} {query : Query} :
    ofTokens tokens = .ok query ↔ Reads [] none (tokens.map Token.kind) query := by
  constructor
  · intro h
    exact reads_of_readFrom h
  · intro h
    apply readFrom_of_reads
    exact h

theorem read_eq_ok_iff {text : String} {query : Query} :
    read text = .ok query ↔
      ∃ kinds, Token.Spells text.toList kinds ∧ Reads [] none kinds query := by
  rw [read, bind_eq_ok_iff]
  constructor
  · rintro ⟨tokens, hscan, hquery⟩
    exact ⟨tokens.map Token.kind, Token.scanFrom_eq_ok_iff.mp ⟨tokens, hscan, rfl⟩,
      ofTokens_eq_ok_iff.mp hquery⟩
  · rintro ⟨kinds, hspells, hreads⟩
    have htokens : ∃ tokens, Token.scan text = .ok tokens ∧ tokens.map Token.kind = kinds :=
      Token.scanFrom_eq_ok_iff.mpr hspells
    obtain ⟨tokens, hscan, rfl⟩ := htokens
    exact ⟨tokens, hscan, ofTokens_eq_ok_iff.mpr hreads⟩

theorem exists_scan_of_read {text : String} {query : Query} (h : read text = .ok query) :
    ∃ tokens, Token.scan text = .ok tokens ∧ Reads [] none (tokens.map Token.kind) query := by
  obtain ⟨tokens, hscan, hquery⟩ := bind_eq_ok_iff.mp h
  exact ⟨tokens, hscan, ofTokens_eq_ok_iff.mp hquery⟩

theorem forall_after {P : Query → Prop}
    (hboth : ∀ left right, P left → P right → P (.both left right)) {before : Option Query}
    {query : Query} (hbefore : ∀ asked ∈ before, P asked) (hquery : P query) :
    ∀ asked ∈ some (after before query), P asked := by
  intro asked hasked
  obtain rfl := Option.mem_some.mp hasked
  cases before with
  | none => exact hquery
  | some before => exact hboth before query (hbefore before rfl) hquery

theorem Reads.forall_terms (Allowed : TokenKind → Prop) {P : Query → Prop}
    (hboth : ∀ left right, P left → P right → P (.both left right))
    (htagged : ∀ tag quoted, Allowed (.name tag quoted) → P (.tagged tag))
    (hcompared : ∀ tag tagQuoted op value quoted, Allowed (.name tag tagQuoted) →
      Allowed (.name value quoted) → P (comparing tag op value quoted))
    {groups : List (Option Query)} {before : Option Query} {kinds : List TokenKind} {query : Query}
    (h : Reads groups before kinds query) (hkinds : ∀ kind ∈ kinds, Allowed kind)
    (hbefore : ∀ asked ∈ before, P asked) (hgroups : ∀ before ∈ groups, ∀ asked ∈ before, P asked) :
    query = .everything ∨ P query := by
  induction h with
  | nothing => exact .inl rfl
  | done => exact .inr (hbefore _ rfl)
  | openGroup hrest ih =>
      obtain ⟨_, hkinds⟩ := List.forall_mem_cons.mp hkinds
      exact ih hkinds (by simp) (List.forall_mem_cons.mpr ⟨hbefore, hgroups⟩)
  | closeGroup hrest ih =>
      obtain ⟨_, hkinds⟩ := List.forall_mem_cons.mp hkinds
      obtain ⟨houter, hgroups⟩ := List.forall_mem_cons.mp hgroups
      exact ih hkinds (forall_after hboth houter (hbefore _ rfl)) hgroups
  | and hnext hrest ih =>
      obtain ⟨_, hkinds⟩ := List.forall_mem_cons.mp hkinds
      exact ih hkinds hbefore hgroups
  | compared hrest ih =>
      obtain ⟨htag, hkinds⟩ := List.forall_mem_cons.mp hkinds
      obtain ⟨_, hkinds⟩ := List.forall_mem_cons.mp hkinds
      obtain ⟨hvalue, hkinds⟩ := List.forall_mem_cons.mp hkinds
      exact ih hkinds (forall_after hboth hbefore (hcompared _ _ _ _ _ htag hvalue)) hgroups
  | tagged hnext hrest ih =>
      obtain ⟨htag, hkinds⟩ := List.forall_mem_cons.mp hkinds
      exact ih hkinds (forall_after hboth hbefore (htagged _ _ htag)) hgroups

/-- No part of the query asks for nothing. -/
def Asking : Query → Prop
  | .everything => False
  | .tagged _ => True
  | .anyValue _ => True
  | .valued _ _ _ => True
  | .both left right => left.Asking ∧ right.Asking

theorem asking_comparing (tag : String) (op : Operator) (value : String) (quoted : Bool) :
    (comparing tag op value quoted).Asking := by
  rw [comparing]
  split <;> trivial

theorem eq_everything_or_asking_of_read {text : String} {query : Query}
    (h : read text = .ok query) : query = .everything ∨ query.Asking := by
  obtain ⟨kinds, _, hreads⟩ := read_eq_ok_iff.mp h
  refine Reads.forall_terms (fun _ => True) ?_ ?_ ?_ hreads (fun _ _ => trivial) (by simp) (by simp)
  · exact fun left right hleft hright => ⟨hleft, hright⟩
  · exact fun tag quoted _ => trivial
  · exact fun tag _ op value quoted _ _ => asking_comparing tag op value quoted

end Query

end TagBase
