import TagBase.Proofs.Query.Rendering
import TagBase.Proofs.Query.Terms

namespace TagBase

namespace Token

/-- A text with no blank and no special character in it that is neither empty nor a keyword, the
case of its ASCII letters aside. -/
structure Bare (word : String) : Prop where
  ne_empty : word ≠ ""
  not_blank : ∀ c ∈ word.toList, Text.isBlank c = false
  not_special : ∀ c ∈ word.toList, c ∉ ['(', ')', '"', '=', '!', '<', '>']
  not_keyword : ∀ keyword ∈ ["and", "or", "not"], word.toList.map Char.toLower ≠ keyword.toList

theorem isSpecial_eq_false_iff {c : Char} :
    isSpecial c = false ↔ c ∉ ['(', ')', '"', '=', '!', '<', '>'] := by
  simp [isSpecial, and_assoc]

theorem ofWord_eq_name_iff (word : List Char) :
    ofWord word = .name (.ofList word) false ↔
      ∀ keyword ∈ ["and", "or", "not"], word.map Char.toLower ≠ keyword.toList := by
  simp only [ofWord, Text.isWord, beq_iff_eq, List.mem_cons, List.not_mem_nil, or_false,
    forall_eq_or_imp, forall_eq, ne_eq]
  split_ifs with hand hor hnot <;> simp_all

theorem plainWord_iff_bare {word : String} : PlainWord word ↔ Bare word := by
  have hname := ofWord_eq_name_iff word.toList
  rw [String.ofList_toList] at hname
  constructor
  · rintro ⟨hne, hall, hof⟩
    have hchars := fun c hc => isWordChar_eq_true_iff.mp (List.all_eq_true.mp hall c hc)
    refine ⟨hne, fun c hc => (hchars c hc).1, fun c hc => ?_, hname.mp hof⟩
    exact isSpecial_eq_false_iff.mp (hchars c hc).2
  · rintro ⟨hne, hblank, hspecial, hkeyword⟩
    refine ⟨hne, List.all_eq_true.mpr fun c hc => ?_, hname.mpr hkeyword⟩
    exact isWordChar_eq_true_iff.mpr ⟨hblank c hc, isSpecial_eq_false_iff.mpr (hspecial c hc)⟩

instance decidableBare (word : String) : Decidable (Bare word) :=
  decidable_of_iff (PlainWord word) plainWord_iff_bare

end Token

namespace Query

open Token (Bare Spells plainWord_iff_bare)

def words : Query → List String
  | .everything => []
  | .tagged tag => [tag]
  | .anyValue tag => [tag]
  | .valued tag _ literal => [tag, literal]
  | .both left right => left.words ++ right.words

theorem isPlain_iff {query : Query} :
    query.IsPlain ↔
      (∀ word ∈ query.words, Bare word) ∧ ∀ tag, .valued tag .eq "*" ∉ query.terms := by
  induction query with
  | everything => simp [IsPlain, words, terms]
  | tagged tag => simp [IsPlain, words, terms, plainWord_iff_bare]
  | anyValue tag => simp [IsPlain, words, terms, plainWord_iff_bare]
  | valued tag op literal =>
      have hstar : (∀ other, .valued other .eq "*" ∉ (valued tag op literal).terms) ↔
          ¬ (op = .eq ∧ literal = "*") := by simp [terms, eq_comm]
      rw [hstar]
      simp [IsPlain, words, plainWord_iff_bare, and_assoc]
  | both left right ihleft ihright =>
      rw [IsPlain, ihleft, ihright, words, terms, List.forall_mem_append, and_and_and_comm]
      simp only [List.mem_append, not_or, forall_and]

/-- A query that asks for something in each of its parts, in bare words and without an equality with
an asterisk, reads back from the text that shows it. -/
theorem read_render_of_bare {query : Query} (hasking : query.Asking)
    (hwords : ∀ word ∈ query.words, Bare word)
    (hstar : ∀ tag, .valued tag .eq "*" ∉ query.terms) : read query.render = .ok query := by
  have hplain : query.IsPlain := isPlain_iff.mpr ⟨hwords, hstar⟩
  exact read_render_of_isPlain hasking hplain

theorem read_render_of_bare_android :
    let query : Query := .both
      (.both (.tagged "λ") (.both (.valued "year" .ge "*") (.anyValue "*")))
      (.both (.valued "android" .eq "C:\\And;") (.tagged "nothing"))
    query.Asking ∧ (∀ word ∈ query.words, Bare word) ∧
      (∀ tag, .valued tag .eq "*" ∉ query.terms) ∧
      query.render = "((λ and (year >= * and *=*)) and (android == C:\\And; and nothing))" ∧
      read query.render = .ok query := by
  intro query
  have hasking : query.Asking := ⟨⟨trivial, trivial, trivial⟩, trivial, trivial⟩
  have hwords : ∀ word ∈ query.words, Bare word := by decide +kernel
  have hstar : ∀ tag, .valued tag .eq "*" ∉ query.terms := by simp [query, terms]
  exact ⟨hasking, hwords, hstar, by decide +kernel, read_render_of_bare hasking hwords hstar⟩

end Query

end TagBase
