import TagBase.Proofs.Matcher
import TagBase.Proofs.Query.Terms

namespace TagBase

theorem Token.spells_nil_iff {text : List Char} :
    Spells text [] ↔ text.all Text.isBlank = true := by
  induction text with
  | nil => exact iff_of_true .nil rfl
  | cons c rest ih =>
      rw [List.all_cons, Bool.and_eq_true, ← ih]
      constructor
      · intro h
        cases h with
        | blank hc hrest => exact ⟨hc, hrest⟩
      · rintro ⟨hc, hrest⟩
        exact .blank hc hrest

namespace Query

theorem holds_nil_of_compile {catalog : Catalog} {graph : RuleGraph} {query : Query}
    {matcher : Matcher} (hasking : query.Asking)
    (h : query.compile catalog graph = .ok matcher) : matcher.holds [] = false := by
  induction query generalizing matcher with
  | everything => exact hasking.elim
  | tagged name =>
      obtain ⟨tag, -, hok⟩ := resolveTag_bind_eq_ok_iff.mp h
      cases hok
      rfl
  | anyValue name =>
      obtain ⟨tag, -, hok⟩ := resolveTag_bind_eq_ok_iff.mp h
      cases hok
      rfl
  | valued name op literal =>
      obtain ⟨tag, -, hok⟩ := resolveTag_bind_eq_ok_iff.mp h
      split at hok
      · obtain ⟨excluded, -, hok⟩ := bind_eq_ok_iff.mp hok
        cases hok
        rfl
      · obtain ⟨pairs, -, hok⟩ := bind_eq_ok_iff.mp hok
        cases hok
        rfl
  | both left right ihleft ihright =>
      obtain ⟨first, hfirst, hok⟩ := bind_eq_ok_iff.mp h
      obtain ⟨second, hsecond, hok⟩ := bind_eq_ok_iff.mp hok
      cases hok
      rw [Matcher.holds, ihleft hasking.1 hfirst, Bool.false_and]

theorem read_eq_everything_iff {text : String} :
    read text = .ok .everything ↔ text.toList.all Text.isBlank = true := by
  rw [read_eq_ok_iff, ← Token.spells_nil_iff]
  constructor
  · rintro ⟨kinds, hspells, hreads⟩
    rwa [hreads.eq_nil_of_everything] at hspells
  · intro hspells
    exact ⟨[], hspells, .nothing⟩

theorem ne_everything_of_read {text : String} {query : Query} (h : read text = .ok query)
    (hblank : text.toList.all Text.isBlank = false) : query ≠ .everything := by
  rintro rfl
  rw [read_eq_everything_iff.mp h] at hblank
  contradiction

/-- A text asks for nothing exactly when it is blank. Every part of a query that was read from any
other text asks for something, so that its matcher refuses a file without facts and has candidate
tags. -/
theorem asks_for_nothing_iff_blank (text : String) :
    (read text = .ok .everything ↔ text.toList.all Text.isBlank = true) ∧
      ∀ query, read text = .ok query → text.toList.all Text.isBlank = false →
        query.Asking ∧
          ∀ catalog graph matcher, query.compile catalog graph = .ok matcher →
            matcher.holds [] = false ∧ ∃ tags, matcher.candidateTags = some tags := by
  refine ⟨read_eq_everything_iff, fun query hread hblank => ?_⟩
  have hasking : query.Asking :=
    (eq_everything_or_asking_of_read hread).resolve_left (ne_everything_of_read hread hblank)
  refine ⟨hasking, fun catalog graph matcher hcompile => ?_⟩
  have hnil := holds_nil_of_compile hasking hcompile
  have htags : matcher.candidateTags ≠ none := by
    rw [Ne, ← Matcher.holds_nil_iff, hnil]
    exact Bool.false_ne_true
  exact ⟨hnil, Option.ne_none_iff_exists'.mp htags⟩

theorem asking_of_read_unix :
    let text := "(os!=linux \"unix\" = *)"
    let catalog : Catalog := ⟨(Registry.empty.add "os").add "unix", Registry.empty.add "linux"⟩
    let query : Query := .both (.valued "os" .ne "linux") (.anyValue "unix")
    read text = .ok query ∧ text.toList.all Text.isBlank = false ∧ query.Asking ∧
      ∃ matcher tags, query.compile catalog (.ofRules [⟨.exact ⟨1⟩ ⟨1⟩, .any ⟨2⟩⟩]) = .ok matcher ∧
        matcher.holds [] = false ∧ matcher.candidateTags = some tags := by
  intro text catalog query
  have hread : read text = .ok query := by decide +kernel
  have hblank : text.toList.all Text.isBlank = false := by decide +kernel
  have hcompile : (query.compile catalog
      (.ofRules [⟨.exact ⟨1⟩ ⟨1⟩, .any ⟨2⟩⟩])).isOk = true := by decide +kernel
  obtain ⟨matcher, hmatcher⟩ := exists_eq_ok_of_isOk hcompile
  obtain ⟨hasking, hmatchers⟩ := (asks_for_nothing_iff_blank text).2 query hread hblank
  obtain ⟨hnil, tags, htags⟩ := hmatchers _ _ matcher hmatcher
  exact ⟨hread, hblank, hasking, matcher, tags, hmatcher, hnil, htags⟩

end Query

end TagBase
