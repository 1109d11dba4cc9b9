import Mathlib.Algebra.BigOperators.Group.Finset.Basic
import Mathlib.Data.Fintype.Basic
import TagBase.Proofs.Rule.Graph

namespace TagBase

instance Ident.fintype {kind : Kind} : Fintype (Ident kind) :=
  .ofEquiv (Fin UInt32.size)
    { toFun := fun n => ⟨.ofFin n⟩
      invFun := fun id => id.num.toFin
      left_inv := fun _ => rfl
      right_inv := fun _ => rfl }

/-- A list has just the rules of another one that meet a condition, each of them once, in the order
in which they first occur there. -/
structure FirstOccurrences (rules : List Rule) (meets : Rule → Prop) (first : List Rule) :
    Prop where
  mem_iff : ∀ rule, rule ∈ first ↔ rule ∈ rules ∧ meets rule
  nodup : first.Nodup
  ordered : first.Pairwise fun a b => rules.idxOf a < rules.idxOf b

theorem pairwise_idxOf_eraseDups (rules : List Rule) :
    rules.eraseDups.Pairwise fun a b => rules.idxOf a < rules.idxOf b := by
  induction rules using List.reverseRecOn with
  | nil => exact .nil
  | append_singleton rules rule ih =>
      have hold : rules.eraseDups.Pairwise fun a b =>
          (rules ++ [rule]).idxOf a < (rules ++ [rule]).idxOf b := by
        refine ih.imp_of_mem fun ha hb hlt => ?_
        rw [List.idxOf_append_of_mem (List.mem_eraseDups.mp ha),
          List.idxOf_append_of_mem (List.mem_eraseDups.mp hb)]
        exact hlt
      rw [List.eraseDups_append]
      by_cases hrule : rule ∈ rules
      · simpa [List.removeAll, hrule] using hold
      · have hnew : ([rule].removeAll rules).eraseDups = [rule] := by
          simp [List.removeAll, hrule, List.eraseDups_cons]
        rw [hnew, List.pairwise_append]
        refine ⟨hold, List.pairwise_singleton _ _, ?_⟩
        intro a ha b hb
        obtain rfl := List.mem_singleton.mp hb
        have ha := List.mem_eraseDups.mp ha
        rw [List.idxOf_append_of_mem ha, List.idxOf_append_of_notMem hrule]
        exact Nat.lt_add_right _ (List.idxOf_lt_length_of_mem ha)

theorem firstOccurrences_filter (rules : List Rule) (meets : Rule → Prop) [DecidablePred meets] :
    FirstOccurrences rules meets (rules.eraseDups.filter fun rule => meets rule) := by
  have hordered : (rules.eraseDups.filter fun rule => meets rule).Pairwise fun a b =>
      rules.idxOf a < rules.idxOf b := (pairwise_idxOf_eraseDups rules).filter _
  refine ⟨fun rule => ?_, hordered.imp ?_, hordered⟩
  · rw [List.mem_filter, List.mem_eraseDups, decide_eq_true_eq]
  · rintro a b hlt rfl
    exact Nat.lt_irrefl _ hlt

theorem FirstOccurrences.length_eq_card {rules first : List Rule} {meets : Rule → Prop}
    [DecidablePred meets] (h : FirstOccurrences rules meets first) :
    first.length = (rules.toFinset.filter meets).card := by
  rw [← List.toFinset_card_of_nodup h.nodup]
  congr 1
  ext rule
  simp [h.mem_iff]

theorem sum_length_eq_card {rules : List Rule} {tagOf : Rule → TagId} {under : TagId → List Rule}
    (h : ∀ tag, FirstOccurrences rules (fun rule => tagOf rule = tag) (under tag)) :
    ∑ tag, (under tag).length = rules.toFinset.card := by
  simp only [(h _).length_eq_card]
  exact (Finset.card_eq_sum_card_fiberwise fun _ _ => Finset.mem_coe.mpr (Finset.mem_univ _)).symm

namespace RuleGraph

theorem firstOccurrences_rulesFrom (rules : List Rule) (tag : TagId) :
    FirstOccurrences rules (fun rule => rule.source.tag = tag)
      ((ofRules rules).rulesFrom tag) := by
  rw [(holds_ofRules rules).rulesFrom_eq]
  exact firstOccurrences_filter rules _

theorem firstOccurrences_rulesInto (rules : List Rule) (tag : TagId) :
    FirstOccurrences rules (fun rule => rule.implied.tag = tag)
      ((ofRules rules).rulesInto tag) := by
  rw [(holds_ofRules rules).rulesInto_eq]
  exact firstOccurrences_filter rules _

theorem size_ofRules (rules : List Rule) : (ofRules rules).size = rules.toFinset.card := by
  have hall : FirstOccurrences rules (fun _ => True) rules.eraseDups := by
    simpa using firstOccurrences_filter rules fun _ => True
  rw [(holds_ofRules rules).size_eq, hall.length_eq_card, Finset.filter_true]

/-- The indexes of the graph of a list hold its distinct rules, one by the tags that they start from
and one by the tags that they lead to. The size of the graph is the number of distinct rules, and
the lengths of either index over all tags add up to it. -/
theorem indexes_hold_distinct_rules (rules : List Rule) :
    (∀ tag, FirstOccurrences rules (fun rule => rule.source.tag = tag)
      ((ofRules rules).rulesFrom tag)) ∧
    (∀ tag, FirstOccurrences rules (fun rule => rule.implied.tag = tag)
      ((ofRules rules).rulesInto tag)) ∧
    (ofRules rules).size = rules.toFinset.card ∧
    ∑ tag, ((ofRules rules).rulesFrom tag).length = (ofRules rules).size ∧
    ∑ tag, ((ofRules rules).rulesInto tag).length = (ofRules rules).size := by
  have hfrom := firstOccurrences_rulesFrom rules
  have hinto := firstOccurrences_rulesInto rules
  have hsize := size_ofRules rules
  exact ⟨hfrom, hinto, hsize, (sum_length_eq_card hfrom).trans hsize.symm,
    (sum_length_eq_card hinto).trans hsize.symm⟩

end RuleGraph

end TagBase
