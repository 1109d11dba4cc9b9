import Mathlib.Data.List.Induction
import TagBase.Rule.Graph

namespace TagBase

namespace RuleIndex

theorem find_cons (first tag : TagId) (rules : List Rule) (rest : RuleIndex) :
    find ((first, rules) :: rest) tag = if tag = first then rules else find rest tag := by
  rw [find, List.lookup_cons]
  split
  · rename_i htag
    simp [beq_iff_eq.mp htag]
  · rename_i htag
    rw [if_neg (beq_eq_false_iff_ne.mp htag), find]

theorem find_add (index : RuleIndex) (tag other : TagId) (rule : Rule) :
    (index.add tag rule).find other =
      if other = tag then index.find other ++ [rule] else index.find other := by
  induction index with
  | nil =>
      simp only [add, find_cons]
      split <;> rfl
  | cons entry rest ih =>
      obtain ⟨first, rules⟩ := entry
      simp only [add]
      split
      · rename_i hfirst
        simp only [find_cons, hfirst]
        split <;> rfl
      · rename_i hfirst
        simp only [find_cons, ih]
        split
        · rename_i hother
          rw [if_neg (hother ▸ hfirst)]
        · rfl

end RuleIndex

namespace RuleGraph

/-- The graph holds the rules of a list, each filed under its tags in the order of the list. -/
structure Holds (graph : RuleGraph) (rules : List Rule) : Prop where
  rulesFrom_eq : ∀ tag, graph.rulesFrom tag = rules.filter fun rule => rule.source.tag = tag
  rulesInto_eq : ∀ tag, graph.rulesInto tag = rules.filter fun rule => rule.implied.tag = tag
  size_eq : graph.size = rules.length

theorem holds_empty : empty.Holds [] :=
  ⟨fun _ => rfl, fun _ => rfl, rfl⟩

theorem Holds.contains_iff {graph : RuleGraph} {rules : List Rule} (h : graph.Holds rules)
    (rule : Rule) : graph.contains rule = true ↔ rule ∈ rules := by
  simp [contains, h.rulesFrom_eq]

theorem Holds.insert_of_mem {graph : RuleGraph} {rules : List Rule} (h : graph.Holds rules)
    {rule : Rule} (hrule : rule ∈ rules) : graph.insert rule = graph := by
  rw [insert, if_pos ((h.contains_iff rule).mpr hrule)]

theorem Holds.insert_of_not_mem {graph : RuleGraph} {rules : List Rule} (h : graph.Holds rules)
    {rule : Rule} (hrule : rule ∉ rules) : (graph.insert rule).Holds (rules ++ [rule]) := by
  rw [insert, if_neg (mt (h.contains_iff rule).mp hrule)]
  constructor
  · intro tag
    have hold := h.rulesFrom_eq tag
    rw [rulesFrom] at hold ⊢
    rw [RuleIndex.find_add, hold]
    by_cases htag : tag = rule.source.tag <;> simp [htag, eq_comm]
  · intro tag
    have hold := h.rulesInto_eq tag
    rw [rulesInto] at hold ⊢
    rw [RuleIndex.find_add, hold]
    by_cases htag : tag = rule.implied.tag <;> simp [htag, eq_comm]
  · simp [h.size_eq]

theorem ofRules_append (rules : List Rule) (rule : Rule) :
    ofRules (rules ++ [rule]) = (ofRules rules).insert rule := by
  simp [ofRules]

theorem holds_ofRules (rules : List Rule) : (ofRules rules).Holds rules.eraseDups := by
  induction rules using List.reverseRecOn with
  | nil => exact holds_empty
  | append_singleton rules rule ih =>
      rw [ofRules_append, List.eraseDups_append]
      by_cases hrule : rule ∈ rules
      · have hmem : rule ∈ rules.eraseDups := List.mem_eraseDups.mpr hrule
        rw [ih.insert_of_mem hmem]
        simpa [List.removeAll, hrule] using ih
      · have hmem : rule ∉ rules.eraseDups := mt List.mem_eraseDups.mp hrule
        simpa [List.removeAll, hrule, List.eraseDups_cons] using ih.insert_of_not_mem hmem

theorem mem_rulesFrom_iff {rules : List Rule} {tag : TagId} {rule : Rule} :
    rule ∈ (ofRules rules).rulesFrom tag ↔ rule ∈ rules ∧ rule.source.tag = tag := by
  simp [(holds_ofRules rules).rulesFrom_eq]

theorem mem_rulesInto_iff {rules : List Rule} {tag : TagId} {rule : Rule} :
    rule ∈ (ofRules rules).rulesInto tag ↔ rule ∈ rules ∧ rule.implied.tag = tag := by
  simp [(holds_ofRules rules).rulesInto_eq]

end RuleGraph

end TagBase
