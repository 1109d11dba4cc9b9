import TagBase.Proofs.Query.Quoting

namespace TagBase

structure Span where
  token : Token
  stop : Nat
deriving DecidableEq

namespace Token

/-- The characters between two byte offsets of a text, both of which fall between characters. -/
def IsSlice (text : List Char) (start stop : Nat) (slice : List Char) : Prop :=
  ∃ before after, text = before ++ slice ++ after ∧ Text.size before = start ∧
    Text.size (before ++ slice) = stop

/-- The spans take up a text from left to right, all but its blanks. -/
structure LaidOut (text : List Char) (spans : List Span) : Prop where
  apart : spans.Pairwise fun first second => first.stop ≤ second.token.start
  alone : ∀ span ∈ spans, ∃ slice, slice ≠ [] ∧
    IsSlice text span.token.start span.stop slice ∧
    scan (.ofList slice) = .ok [⟨span.token.kind, 0⟩]
  blank : ∀ before c after, text = before ++ c :: after →
    Text.isBlank c = true ∨
      ∃ span ∈ spans, span.token.start ≤ Text.size before ∧ Text.size before < span.stop

/-- The spans take up the rest of a text, from a byte offset on. -/
inductive Takes : Nat → List Char → List Span → Prop
  | nil {start : Nat} : Takes start [] []
  | blank {start : Nat} {c : Char} {rest : List Char} {spans : List Span}
      (hc : Text.isBlank c = true) (hrest : Takes (start + c.utf8Size) rest spans) :
      Takes start (c :: rest) spans
  | token {start : Nat} {slice rest : List Char} {kind : TokenKind} {spans : List Span}
      (hne : slice ≠ []) (halone : scanFrom 0 0 slice = .ok [⟨kind, 0⟩])
      (hrest : Takes (start + Text.size slice) rest spans) :
      Takes start (slice ++ rest) (⟨⟨kind, start⟩, start + Text.size slice⟩ :: spans)

theorem scanFrom_length (start : Nat) (text : List Char) :
    scanFrom start text.length text = .ok [] := by
  induction text generalizing start with
  | nil => rfl
  | cons c rest ih => exact ih (start + c.utf8Size)

theorem scanFrom_token {start more : Nat} {c : Char} {rest : List Char} {kind : TokenKind}
    (hc : Text.isBlank c = false) (h : first start c rest = .ok (kind, more)) :
    scanFrom 0 0 (c :: rest.take more) = .ok [⟨kind, 0⟩] := by
  have hseam : Seam (rest.drop more) [] := ⟨nofun, nofun⟩
  have hfirst := first_take_append hseam (first_eq_ok_congr h 0)
  have hlength := List.length_take_of_le (more_le_of_first hc h)
  have hnone := scanFrom_length (0 + c.utf8Size) (rest.take more)
  rw [hlength] at hnone
  rw [List.append_nil] at hfirst
  rw [scanFrom_cons, if_neg (by simp [hc]), hfirst]
  change (scanFrom _ _ _ >>= _) = _
  rw [hnone]
  rfl

theorem exists_takes_of_scanFrom {start skip : Nat} {text : List Char} {tokens : List Token}
    (h : scanFrom start skip text = .ok tokens) :
    ∃ spans, Takes (start + Text.size (text.take skip)) (text.drop skip) spans ∧
      spans.map Span.token = tokens := by
  induction text generalizing start skip tokens with
  | nil =>
      cases h
      exact ⟨[], by simpa using .nil, rfl⟩
  | cons c rest ih =>
      obtain ⟨less, rfl, hrest⟩ | ⟨rfl, hc, hrest⟩ |
        ⟨rfl, hc, kind, more, others, hfirst, hothers, rfl⟩ := scanFrom_cons_cases h
      · obtain ⟨spans, htakes, rfl⟩ := ih hrest
        refine ⟨spans, ?_, rfl⟩
        rwa [List.take_succ_cons, Text.size_cons, ← Nat.add_assoc]
      · obtain ⟨spans, htakes, rfl⟩ := ih hrest
        exact ⟨spans, .blank hc htakes, rfl⟩
      · obtain ⟨spans, htakes, rfl⟩ := ih hothers
        have hsplit : c :: rest = (c :: rest.take more) ++ rest.drop more := by simp
        rw [Nat.add_assoc, ← Text.size_cons] at htakes
        refine ⟨⟨⟨kind, start⟩, start + Text.size (c :: rest.take more)⟩ :: spans, ?_, rfl⟩
        rw [List.take_zero, List.drop_zero, hsplit]
        exact .token (List.cons_ne_nil _ _) (scanFrom_token hc hfirst) htakes

namespace Takes

variable {start : Nat} {text : List Char} {spans : List Span}

theorem le_start (h : Takes start text spans) : ∀ span ∈ spans, start ≤ span.token.start := by
  induction h with
  | nil => simp
  | blank _ _ ih => exact fun span hspan => Nat.le_of_add_right_le (ih span hspan)
  | token _ _ _ ih =>
      exact List.forall_mem_cons.mpr
        ⟨Nat.le_refl _, fun span hspan => Nat.le_of_add_right_le (ih span hspan)⟩

theorem apart (h : Takes start text spans) :
    spans.Pairwise fun first second => first.stop ≤ second.token.start := by
  induction h with
  | nil => exact .nil
  | blank _ _ ih => exact ih
  | token _ _ hrest ih => exact .cons hrest.le_start ih

theorem alone (h : Takes start text spans) : ∀ span ∈ spans, ∃ before slice after,
    text = before ++ slice ++ after ∧ start + Text.size before = span.token.start ∧
      start + Text.size (before ++ slice) = span.stop ∧ slice ≠ [] ∧
      scanFrom 0 0 slice = .ok [⟨span.token.kind, 0⟩] := by
  induction h with
  | nil => simp
  | @blank start c rest spans hc hrest ih =>
      intro span hspan
      obtain ⟨before, slice, after, rfl, hstart, hstop, hslice⟩ := ih span hspan
      refine ⟨c :: before, slice, after, rfl, ?_, ?_, hslice⟩
      · rw [Text.size_cons, ← Nat.add_assoc, hstart]
      · rw [List.cons_append, Text.size_cons, ← Nat.add_assoc, hstop]
  | @token start slice rest kind spans hne halone hrest ih =>
      refine List.forall_mem_cons.mpr ⟨⟨[], slice, rest, rfl, rfl, rfl, hne, halone⟩, ?_⟩
      intro span hspan
      obtain ⟨before, inner, after, rfl, hstart, hstop, hinner⟩ := ih span hspan
      refine ⟨slice ++ before, inner, after, by simp, ?_, ?_, hinner⟩
      · rw [Text.size_append, ← Nat.add_assoc, hstart]
      · rw [List.append_assoc, Text.size_append, ← Nat.add_assoc, hstop]

theorem blank_or_taken (h : Takes start text spans) {before after : List Char} {c : Char}
    (htext : text = before ++ c :: after) :
    Text.isBlank c = true ∨ ∃ span ∈ spans,
      span.token.start ≤ start + Text.size before ∧ start + Text.size before < span.stop := by
  induction h generalizing before with
  | nil => cases before <;> cases htext
  | @blank start d rest spans hd hrest ih =>
      cases before with
      | nil =>
          obtain ⟨rfl, -⟩ := List.cons_eq_cons.mp htext
          exact .inl hd
      | cons _ before =>
          obtain ⟨rfl, hinner⟩ := List.cons_eq_cons.mp htext
          rw [Text.size_cons, ← Nat.add_assoc]
          exact ih hinner
  | @token start slice rest kind spans hne halone hrest ih =>
      have hlater : ∀ more, before = slice ++ more → rest = more ++ c :: after →
          Text.isBlank c = true ∨
            ∃ span ∈ (⟨⟨kind, start⟩, start + Text.size slice⟩ :: spans : List Span),
              span.token.start ≤ start + Text.size before ∧
                start + Text.size before < span.stop := by
        rintro more rfl hmore
        rw [Text.size_append, ← Nat.add_assoc]
        exact (ih hmore).imp_right fun ⟨span, hspan, hoffset⟩ =>
          ⟨span, List.mem_cons_of_mem _ hspan, hoffset⟩
      rcases List.append_eq_append_iff.mp htext with ⟨more, hbefore, hmore⟩ |
        ⟨inner, hslice, hinner⟩
      · exact hlater more hbefore hmore
      cases inner with
      | nil => exact hlater [] (by simp [hslice]) hinner.symm
      | cons d inner =>
          obtain ⟨rfl, -⟩ := List.cons_eq_cons.mp hinner
          have hpos := c.utf8Size_pos
          refine .inr ⟨_, List.mem_cons_self, Nat.le_add_right _ _, ?_⟩
          change start + Text.size before < start + Text.size slice
          rw [hslice, Text.size_append, Text.size_cons]
          omega

end Takes

theorem laidOut_of_takes {text : List Char} {spans : List Span} (h : Takes 0 text spans) :
    LaidOut text spans where
  apart := h.apart
  alone span hspan := by
    obtain ⟨before, slice, after, htext, hstart, hstop, hne, halone⟩ := h.alone span hspan
    rw [Nat.zero_add] at hstart hstop
    refine ⟨slice, hne, ⟨before, after, htext, hstart, hstop⟩, ?_⟩
    rw [scan, String.toList_ofList, halone]
  blank before c after htext := by
    have h := h.blank_or_taken htext
    rwa [Nat.zero_add] at h

/-- A text has no tokens if and only if a quote of it opens a phrase that never closes, and then the
byte of that quote is reported. Every other text is laid out in its tokens, which start at their
bytes. -/
theorem scan_lays_out (text : String) :
    (∀ start, (scan text = .error (.query (.unclosedQuote start)) ↔ UnclosedAt text.toList start) ∧
      (Error.query (.unclosedQuote start)).message =
        "Query parse error: missing closing quote near byte " ++ start.repr) ∧
    ((∃ start, scan text = .error (.query (.unclosedQuote start))) ∨
      ∃ spans, scan text = .ok (spans.map Span.token) ∧ LaidOut text.toList spans) := by
  refine ⟨fun start => ⟨?_, ?_⟩, ?_⟩
  · rw [scan_eq_error_iff]
    constructor
    · rintro ⟨other, hunclosed, hsame⟩
      cases hsame
      exact hunclosed
    · exact fun hunclosed => ⟨start, hunclosed, rfl⟩
  · exact String.append_assoc.symm
  · cases hscan : scan text with
    | error error =>
        obtain ⟨start, -, rfl⟩ := scan_eq_error_iff.mp hscan
        exact .inl ⟨start, rfl⟩
    | ok tokens =>
        obtain ⟨spans, htakes, rfl⟩ := exists_takes_of_scanFrom hscan
        exact .inr ⟨spans, rfl, laidOut_of_takes htakes⟩

end Token

end TagBase
