import Mathlib.Data.List.Chain
import TagBase.Proofs.Query.Reading

/-!
The grammar of queries:

    query       := conjunction?
    conjunction := term tail
    tail        := ("and"* term)*
    term        := "(" conjunction ")" | name (operator name)?

A text is read as a query exactly when its tokens are a sentence of this grammar. It is wider than
the grammar in which at most one `and` stands between two terms, but only by the sentences with two
`and`s side by side.
-/

namespace TagBase

inductive Nonterminal where
  | query
  | conjunction
  | tail
  | term

/-- The kinds of tokens derive from a nonterminal, where `Joins` says how many `and`s may stand
between two terms. -/
inductive Derives (Joins : Nat → Prop) : Nonterminal → List TokenKind → Prop
  | nothing : Derives Joins .query []
  | query {kinds : List TokenKind} (h : Derives Joins .conjunction kinds) :
      Derives Joins .query kinds
  | conjunction {first more : List TokenKind} (hfirst : Derives Joins .term first)
      (hmore : Derives Joins .tail more) : Derives Joins .conjunction (first ++ more)
  | last : Derives Joins .tail []
  | joined {count : Nat} {next more : List TokenKind} (hcount : Joins count)
      (hnext : Derives Joins .term next) (hmore : Derives Joins .tail more) :
      Derives Joins .tail (List.replicate count .and ++ (next ++ more))
  | group {kinds : List TokenKind} (h : Derives Joins .conjunction kinds) :
      Derives Joins .term (.openGroup :: (kinds ++ [.closeGroup]))
  | tagged {tag : String} {quoted : Bool} : Derives Joins .term [.name tag quoted]
  | compared {tag value : String} {op : Operator} {tagQuoted quoted : Bool} :
      Derives Joins .term [.name tag tagQuoted, .operator op, .name value quoted]

abbrev AtMostOne (count : Nat) : Prop := count ≤ 1

abbrev AnyNumber (_ : Nat) : Prop := True

def TokenKind.Apart (left right : TokenKind) : Prop := ¬ (left = .and ∧ right = .and)

/-- A run of `and`s that one grammar allows and that stands among the kinds of tokens is allowed by
another one. -/
def Exchanges (Joins Others : Nat → Prop) (kinds : List TokenKind) : Prop :=
  ∀ count, Joins count → List.replicate count .and <:+: kinds → Others count

theorem Exchanges.of_infix {Joins Others : Nat → Prop} {part kinds : List TokenKind}
    (h : Exchanges Joins Others kinds) (hpart : part <:+: kinds) : Exchanges Joins Others part :=
  fun count hcount hands => h count hcount (hands.trans hpart)

namespace Derives

open TokenKind (Apart)

variable {Joins : Nat → Prop} {symbol : Nonterminal} {kinds : List TokenKind}

theorem exists_eq_cons_of_term (h : Derives Joins .term kinds) :
    ∃ first rest, kinds = first :: rest ∧
      (first = .openGroup ∨ ∃ text quoted, first = .name text quoted) := by
  cases h with
  | group => exact ⟨_, _, rfl, .inl rfl⟩
  | tagged => exact ⟨_, _, rfl, .inr ⟨_, _, rfl⟩⟩
  | compared => exact ⟨_, _, rfl, .inr ⟨_, _, rfl⟩⟩

theorem head?_ne_and_of_term (h : Derives Joins .term kinds) (rest : List TokenKind) :
    (kinds ++ rest).head? ≠ some .and := by
  obtain ⟨first, more, rfl, rfl | ⟨text, quoted, rfl⟩⟩ := h.exists_eq_cons_of_term <;> simp

theorem getLast?_ne_and_of_term (h : Derives Joins .term kinds) : kinds.getLast? ≠ some .and := by
  cases h with
  | group =>
      rw [← List.cons_append, List.getLast?_concat]
      simp
  | tagged => simp
  | compared => simp

theorem ne_unsupported (h : Derives Joins symbol kinds) :
    ∀ kind ∈ kinds, kind ≠ .or ∧ kind ≠ .not ∧ kind ≠ .bang := by
  induction h with
  | nothing | last => simp
  | query _ ih => exact ih
  | conjunction _ _ ihfirst ihmore => exact List.forall_mem_append.mpr ⟨ihfirst, ihmore⟩
  | joined _ _ _ ihnext ihmore =>
      refine List.forall_mem_append.mpr ⟨?_, List.forall_mem_append.mpr ⟨ihnext, ihmore⟩⟩
      intro kind hkind
      simp [List.eq_of_mem_replicate hkind]
  | group _ ih =>
      exact List.forall_mem_cons.mpr ⟨by simp, List.forall_mem_append.mpr ⟨ih, by simp⟩⟩
  | tagged => simp
  | compared => simp

theorem mono {Others : Nat → Prop} (h : Derives Joins symbol kinds)
    (hjoins : Exchanges Joins Others kinds) : Derives Others symbol kinds := by
  induction h with
  | nothing => exact .nothing
  | query _ ih => exact .query (ih hjoins)
  | @conjunction first more _ _ ihfirst ihmore =>
      have hfirst := hjoins.of_infix (List.prefix_append first more).isInfix
      have hmore := hjoins.of_infix (List.suffix_append first more).isInfix
      exact .conjunction (ihfirst hfirst) (ihmore hmore)
  | last => exact .last
  | @joined count next more hcount _ _ ihnext ihmore =>
      have hrest := hjoins.of_infix (List.suffix_append (.replicate count TokenKind.and) _).isInfix
      have hnext := hrest.of_infix (List.prefix_append next more).isInfix
      have hmore := hrest.of_infix (List.suffix_append next more).isInfix
      have hothers := hjoins count hcount (List.prefix_append _ _).isInfix
      exact .joined hothers (ihnext hnext) (ihmore hmore)
  | group _ ih => exact .group (ih (hjoins.of_infix ⟨[.openGroup], [.closeGroup], rfl⟩))
  | tagged => exact .tagged
  | compared => exact .compared

theorem isChain_apart (h : Derives AtMostOne symbol kinds) : kinds.IsChain Apart := by
  induction h with
  | nothing | last => simp
  | query _ ih => exact ih
  | conjunction hfirst _ ihfirst ihmore =>
      refine List.isChain_append.mpr ⟨ihfirst, ihmore, ?_⟩
      rintro left hleft right - ⟨rfl, -⟩
      exact hfirst.getLast?_ne_and_of_term hleft
  | @joined count next more hcount hnext _ ihnext ihmore =>
      have hands : (List.replicate count TokenKind.and).IsChain Apart := by
        match count with
        | 0 | 1 => simp
      refine List.isChain_append.mpr ⟨hands, List.isChain_append.mpr ⟨ihnext, ihmore, ?_⟩, ?_⟩
      · rintro left hleft right - ⟨rfl, -⟩
        exact hnext.getLast?_ne_and_of_term hleft
      · rintro left - right hright ⟨-, rfl⟩
        exact hnext.head?_ne_and_of_term more hright
  | group _ ih =>
      refine List.isChain_cons.mpr ⟨?_, List.isChain_append.mpr ⟨ih, by simp, ?_⟩⟩
      · rintro right - ⟨hopen, -⟩
        cases hopen
      · rintro left - right hright ⟨-, rfl⟩
        cases hright
  | tagged => simp
  | compared => simp [Apart]

theorem atMostOne_iff : Derives AtMostOne symbol kinds ↔
    Derives AnyNumber symbol kinds ∧ ¬ [.and, .and] <:+: kinds := by
  constructor
  · intro h
    refine ⟨h.mono fun _ _ _ => trivial, fun hands => ?_⟩
    have happart := h.isChain_apart.infix hands
    simp [Apart] at happart
  · rintro ⟨h, hkinds⟩
    refine h.mono fun count _ hands => ?_
    by_contra hcount
    obtain ⟨others, rfl⟩ := Nat.exists_eq_add_of_le' (Nat.lt_of_not_le hcount)
    have htwo : [.and, .and] <:+: List.replicate (others + 2) TokenKind.and :=
      ⟨[], List.replicate others .and, rfl⟩
    exact hkinds (htwo.trans hands)

theorem and_tail (h : Derives AnyNumber .tail kinds) (hkinds : kinds ≠ []) :
    Derives AnyNumber .tail (.and :: kinds) := by
  cases h with
  | last => exact absurd rfl hkinds
  | @joined count next more _ hnext hmore =>
      have htail : Derives AnyNumber .tail (List.replicate (count + 1) .and ++ (next ++ more)) :=
        .joined trivial hnext hmore
      exact htail

theorem head?_ne_operator_of_tail (h : Derives Joins .tail kinds) {rest : List TokenKind}
    (hrest : ∀ op, rest.head? ≠ some (.operator op)) (op : Operator) :
    (kinds ++ rest).head? ≠ some (.operator op) := by
  cases h with
  | last => exact hrest op
  | @joined count next more _ hnext _ =>
      obtain ⟨first, others, rfl, hfirst⟩ := hnext.exists_eq_cons_of_term
      cases count with
      | zero => rcases hfirst with rfl | ⟨text, quoted, rfl⟩ <;> simp
      | succ count => simp [List.replicate_succ]

end Derives

namespace Query

variable {Joins : Nat → Prop} {symbol : Nonterminal} {kinds : List TokenKind}

/-- After what a conjunction has asked `before`, the kinds of tokens are read on until it has
`asked`. -/
def Leads (kinds : List TokenKind) (before : Option Query) (asked : Query) : Prop :=
  ∀ {outer : List (Option Query)} {rest : List TokenKind} {query : Query},
    (∀ op, rest.head? ≠ some (.operator op)) → Reads outer (some asked) rest query →
      Reads outer before (kinds ++ rest) query

theorem Reads.ands {outer : List (Option Query)} {before query : Query} {rest : List TokenKind}
    {next : TokenKind} (hnext : rest.head? = some next) (hclose : next ≠ .closeGroup)
    (hrest : Reads outer (some before) rest query) (count : Nat) :
    Reads outer (some before) (List.replicate count .and ++ rest) query := by
  induction count with
  | zero => exact hrest
  | succ count ih =>
      cases count with
      | zero =>
          obtain ⟨more, rfl⟩ := List.head?_eq_some_iff.mp hnext
          exact .and hclose ih
      | succ count => exact .and nofun ih

theorem exists_leads_of_derives (h : Derives Joins symbol kinds) (hsymbol : symbol ≠ .query)
    (before : Option Query) (hbefore : symbol = .tail → before ≠ none) :
    ∃ asked, Leads kinds before asked := by
  induction h generalizing before with
  | nothing | query => exact absurd rfl hsymbol
  | conjunction _ hmore ihfirst ihmore =>
      obtain ⟨first, hfirst⟩ := ihfirst nofun before nofun
      obtain ⟨asked, hasked⟩ := ihmore nofun (some first) nofun
      refine ⟨asked, fun hnext hrest => ?_⟩
      rw [List.append_assoc]
      exact hfirst (hmore.head?_ne_operator_of_tail hnext) (hasked hnext hrest)
  | last =>
      obtain ⟨asked, rfl⟩ := Option.ne_none_iff_exists'.mp (hbefore rfl)
      exact ⟨asked, fun _ hrest => hrest⟩
  | @joined count _ _ _ hterm hmore ihterm ihmore =>
      obtain ⟨start, rfl⟩ := Option.ne_none_iff_exists'.mp (hbefore rfl)
      obtain ⟨first, hfirst⟩ := ihterm nofun (some start) nofun
      obtain ⟨asked, hasked⟩ := ihmore nofun (some first) nofun
      refine ⟨asked, fun hnext hrest => ?_⟩
      have hreads := hfirst (hmore.head?_ne_operator_of_tail hnext) (hasked hnext hrest)
      obtain ⟨head, others, rfl, hhead⟩ := hterm.exists_eq_cons_of_term
      have hclose : head ≠ .closeGroup := by rcases hhead with rfl | ⟨text, quoted, rfl⟩ <;> simp
      simpa using hreads.ands rfl hclose count
  | group _ ih =>
      obtain ⟨inner, hinner⟩ := ih nofun none nofun
      refine ⟨after before inner, fun _ hrest => ?_⟩
      rw [List.cons_append, List.append_assoc]
      exact .openGroup (hinner (by simp) (.closeGroup hrest))
  | @tagged tag => exact ⟨after before (.tagged tag), fun hnext hrest => .tagged hnext hrest⟩
  | @compared tag value op _ quoted =>
      exact ⟨after before (comparing tag op value quoted), fun _ hrest => .compared hrest⟩

theorem exists_reads_of_derives (h : Derives Joins .query kinds) :
    ∃ query, Reads [] none kinds query := by
  cases h with
  | nothing => exact ⟨.everything, .nothing⟩
  | query h =>
      obtain ⟨asked, hasked⟩ := exists_leads_of_derives h nofun none nofun
      exact ⟨asked, by simpa using hasked (by simp) .done⟩

/-- What may follow a conjunction inside so many open groups: each is closed, and the conjunction
around it goes on. -/
inductive Closes : Nat → List TokenKind → Prop
  | done : Closes 0 []
  | closeGroup {depth : Nat} {more rest : List TokenKind} (hmore : Derives AnyNumber .tail more)
      (hrest : Closes depth rest) : Closes (depth + 1) (.closeGroup :: (more ++ rest))

/-- The nonterminal that a conjunction still has to derive. -/
def expected : Option Query → Nonterminal
  | none => .conjunction
  | some _ => .tail

theorem derives_expected (before : Option Query) {first more : List TokenKind}
    (hfirst : Derives AnyNumber .term first) (hmore : Derives AnyNumber .tail more) :
    Derives AnyNumber (expected before) (first ++ more) := by
  cases before with
  | none => exact .conjunction hfirst hmore
  | some asked =>
      have htail : Derives AnyNumber .tail (List.replicate 0 .and ++ (first ++ more)) :=
        .joined trivial hfirst hmore
      exact htail

theorem Reads.exists_derives {groups : List (Option Query)} {before : Option Query}
    {query : Query} (h : Reads groups before kinds query) :
    groups = [] ∧ before = none ∧ kinds = [] ∨
      ∃ inner rest, kinds = inner ++ rest ∧ Derives AnyNumber (expected before) inner ∧
        Closes groups.length rest := by
  induction h with
  | nothing => exact .inl ⟨rfl, rfl, rfl⟩
  | done => exact .inr ⟨[], [], rfl, .last, .done⟩
  | @openGroup _ before _ _ _ ih =>
      obtain ⟨hgroups, -⟩ | ⟨inner, rest, rfl, hinner, hrest⟩ := ih
      · cases hgroups
      · cases hrest with
        | @closeGroup _ more rest hmore hrest =>
            have hterm := derives_expected before (.group hinner) hmore
            exact .inr ⟨_, rest, by simp, hterm, hrest⟩
  | closeGroup _ ih =>
      obtain ⟨-, hbefore, -⟩ | ⟨more, rest, rfl, hmore, hrest⟩ := ih
      · cases hbefore
      · exact .inr ⟨[], _, rfl, .last, .closeGroup hmore hrest⟩
  | @and outer _ _ next kinds hnext _ ih =>
      obtain ⟨-, hbefore, -⟩ | ⟨more, rest, hkinds, hmore, hrest⟩ := ih
      · cases hbefore
      · -- the end of a group is refused behind an `and`, so the tail has a term left
        have hne : more ≠ [] := by
          rintro rfl
          rw [List.nil_append] at hkinds
          subst hkinds
          generalize outer.length = depth at hrest
          cases hrest
          exact hnext rfl
        exact .inr ⟨.and :: more, rest, by rw [hkinds]; rfl, hmore.and_tail hne, hrest⟩
  | compared _ ih =>
      obtain ⟨-, hbefore, -⟩ | ⟨more, rest, rfl, hmore, hrest⟩ := ih
      · cases hbefore
      · exact .inr ⟨_, rest, rfl, derives_expected _ .compared hmore, hrest⟩
  | tagged _ _ ih =>
      obtain ⟨-, hbefore, -⟩ | ⟨more, rest, rfl, hmore, hrest⟩ := ih
      · cases hbefore
      · exact .inr ⟨_, rest, rfl, derives_expected _ .tagged hmore, hrest⟩

theorem Reads.derives {query : Query} (h : Reads [] none kinds query) :
    Derives AnyNumber .query kinds := by
  obtain ⟨-, -, rfl⟩ | ⟨inner, rest, rfl, hinner, hrest⟩ := h.exists_derives
  · exact .nothing
  · cases hrest
    rw [List.append_nil]
    exact .query hinner

theorem exists_read_iff_exists_reads {text : String} {tokens : List Token}
    (hscan : Token.scan text = .ok tokens) :
    (∃ query, read text = .ok query) ↔ ∃ query, Reads [] none (tokens.map Token.kind) query := by
  have hread : read text = ofTokens tokens := by
    rw [read, hscan]
    rfl
  simp only [hread, ofTokens_eq_ok_iff]

/-- A text is read exactly when its tokens are a sentence of the grammar. A sentence in which at
most one `and` stands between two terms is one in which no two `and`s stand side by side. -/
theorem exists_read_iff_derives {text : String} {tokens : List Token}
    (hscan : Token.scan text = .ok tokens) :
    let kinds := tokens.map Token.kind
    ((∃ query, read text = .ok query) ↔ Derives AnyNumber .query kinds) ∧
      (Derives AtMostOne .query kinds ↔
        (∃ query, read text = .ok query) ∧ ¬ [.and, .and] <:+: kinds) ∧
      ((∃ query, read text = .ok query) →
        ∀ kind ∈ kinds, kind ≠ .or ∧ kind ≠ .not ∧ kind ≠ .bang) := by
  intro kinds
  have hread : (∃ query, read text = .ok query) ↔ Derives AnyNumber .query kinds := by
    rw [exists_read_iff_exists_reads hscan]
    constructor
    · rintro ⟨query, hreads⟩
      exact hreads.derives
    · exact exists_reads_of_derives
  refine ⟨hread, ?_, fun h => (hread.mp h).ne_unsupported⟩
  rw [hread]
  exact Derives.atMostOne_iff

theorem derives_of_read_title :
    let text := "(title == \"and and\" year>=2000) AND genre=*"
    let tokens : List Token := [⟨.openGroup, 0⟩, ⟨.name "title" false, 1⟩, ⟨.operator .eq, 7⟩,
      ⟨.name "and and" true, 10⟩, ⟨.name "year" false, 20⟩, ⟨.operator .ge, 24⟩,
      ⟨.name "2000" false, 26⟩, ⟨.closeGroup, 30⟩, ⟨.and, 32⟩, ⟨.name "genre" false, 36⟩,
      ⟨.operator .eq, 41⟩, ⟨.name "*" false, 42⟩]
    Token.scan text = .ok tokens ∧ Derives AtMostOne .query (tokens.map Token.kind) := by
  intro text tokens
  have hscan : Token.scan text = .ok tokens := by decide +kernel
  have hread : read text = .ok (.both
      (.both (.valued "title" .eq "and and") (.valued "year" .ge "2000")) (.anyValue "genre")) := by
    decide +kernel
  exact ⟨hscan, (exists_read_iff_derives hscan).2.1.mpr ⟨⟨_, hread⟩, by decide⟩⟩

/-- A repeated `and` is passed over. -/
theorem read_and_and :
    let tokens : List Token :=
      [⟨.name "a" false, 0⟩, ⟨.and, 2⟩, ⟨.and, 6⟩, ⟨.name "b" false, 10⟩]
    Token.scan "a and and b" = .ok tokens ∧
      read "a and and b" = .ok (.both (.tagged "a") (.tagged "b")) ∧
      ¬ Derives AtMostOne .query (tokens.map Token.kind) := by
  intro tokens
  refine ⟨by decide +kernel, by decide +kernel, fun h => ?_⟩
  exact (Derives.atMostOne_iff.mp h).2 ⟨[.name "a" false], [.name "b" false], rfl⟩

end Query

end TagBase
