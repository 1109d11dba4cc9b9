import TagBase.Proofs.Rule.Graph
import TagBase.Proofs.Rule.Walk
import TagBase.Rule.Closure

/-!
Closures are exact: they hold what can be reached from the seeds by steps along the rules, forward
or backward. Both kinds of step ask whether one pair falls under another, which makes them dual: a
fact is covered by what implies the seeds just when it implies something that falls under a seed.
-/

namespace TagBase

/-- A pair falls under another one of its tag that means any value or the same. -/
def Pair.FallsUnder (pair other : Pair) : Prop :=
  pair.tag = other.tag ∧ (other.selector = .any ∨ other.selector = pair.selector)

theorem Pair.FallsUnder.refl (pair : Pair) : pair.FallsUnder pair := ⟨rfl, .inr rfl⟩

theorem Pair.fallsUnder_any_iff {pair : Pair} {tag : TagId} :
    pair.FallsUnder (.any tag) ↔ pair.tag = tag := by
  simp [FallsUnder, any]

theorem Pair.fallsUnder_exact_iff {pair : Pair} {tag : TagId} {value : ValueId} :
    pair.FallsUnder (.exact tag value) ↔ pair = .exact tag value := by
  cases pair
  simp [FallsUnder, exact, eq_comm]

theorem PairSet.covers_iff {pairs : PairSet} {fact : Fact} :
    pairs.covers fact = true ↔ ∃ pair ∈ pairs, fact.pair.FallsUnder pair := by
  rw [covers, Bool.or_eq_true, decide_eq_true_eq, Option.any_eq_true]
  constructor
  · rintro (hany | ⟨value, hvalue, hexact⟩)
    · exact ⟨_, hany, Pair.fallsUnder_any_iff.mpr fact.pair_tag⟩
    · refine ⟨_, of_decide_eq_true hexact, Pair.fallsUnder_exact_iff.mpr ?_⟩
      simp [Fact.pair, hvalue]
  · rintro ⟨⟨tag, selector⟩, hmem, htag, hselector⟩
    rw [fact.pair_tag] at htag
    subst htag
    cases selector with
    | any => exact .inl hmem
    | exact value =>
        cases hvalue : fact.value with
        | none => simp [Fact.pair, hvalue, Pair.any] at hselector
        | some other =>
            obtain rfl : value = other := by simpa [Fact.pair, hvalue, Pair.exact] using hselector
            exact .inr ⟨value, rfl, decide_eq_true hmem⟩

namespace RuleGraph

variable {rules : List Rule}

def StepsTo (rules : List Rule) (pair reached : Pair) : Prop :=
  ∃ rule ∈ rules, pair.FallsUnder rule.source ∧ rule.implied = reached

def StepsBackTo (rules : List Rule) (pair reached : Pair) : Prop :=
  ∃ rule ∈ rules, rule.implied.FallsUnder pair ∧ rule.source = reached

theorem leads_impliedBy : Walk.Leads (ofRules rules).impliedBy = StepsTo rules := by
  funext pair reached
  simp only [Walk.Leads, impliedBy, StepsTo, Pair.FallsUnder, List.mem_filterMap,
    mem_rulesFrom_iff, Option.ite_none_right_eq_some, Option.some.injEq, eq_iff_iff]
  constructor
  · rintro ⟨rule, ⟨hrule, htag⟩, hselector, himplied⟩
    exact ⟨rule, hrule, ⟨htag.symm, hselector⟩, himplied⟩
  · rintro ⟨rule, hrule, ⟨htag, hselector⟩, himplied⟩
    exact ⟨rule, ⟨hrule, htag.symm⟩, hselector, himplied⟩

theorem leads_implying : Walk.Leads (ofRules rules).implying = StepsBackTo rules := by
  funext pair reached
  simp only [Walk.Leads, implying, StepsBackTo, Pair.FallsUnder, List.mem_filterMap,
    mem_rulesInto_iff, Option.ite_none_right_eq_some, Option.some.injEq, eq_iff_iff]
  constructor
  · rintro ⟨rule, ⟨hrule, htag⟩, hselector, hsource⟩
    exact ⟨rule, hrule, ⟨htag, hselector.imp_right Eq.symm⟩, hsource⟩
  · rintro ⟨rule, hrule, ⟨htag, hselector⟩, hsource⟩
    exact ⟨rule, ⟨hrule, htag⟩, hselector.imp_right Eq.symm, hsource⟩

theorem mem_implied_of_leads {pair neighbour : Pair}
    (h : Walk.Leads (ofRules rules).impliedBy pair neighbour) :
    neighbour ∈ rules.eraseDups.map Rule.implied := by
  rw [leads_impliedBy] at h
  obtain ⟨rule, hrule, -, himplied⟩ := h
  exact List.mem_map.mpr ⟨rule, List.mem_eraseDups.mpr hrule, himplied⟩

theorem mem_source_of_leads {pair neighbour : Pair}
    (h : Walk.Leads (ofRules rules).implying pair neighbour) :
    neighbour ∈ rules.eraseDups.map Rule.source := by
  rw [leads_implying] at h
  obtain ⟨rule, hrule, -, hsource⟩ := h
  exact List.mem_map.mpr ⟨rule, List.mem_eraseDups.mpr hrule, hsource⟩

theorem walkForward_eq_finish (seeds : List Pair) :
    (ofRules rules).walkForward seeds =
      Walk.finish (ofRules rules).impliedBy (rules.eraseDups.map Rule.implied) seeds := by
  rw [walkForward, Walk.finish, List.length_map, (holds_ofRules rules).size_eq]

theorem walkBackward_eq_finish (seeds : List Pair) :
    (ofRules rules).walkBackward seeds =
      Walk.finish (ofRules rules).implying (rules.eraseDups.map Rule.source) seeds := by
  rw [walkBackward, Walk.finish, List.length_map, (holds_ofRules rules).size_eq]

theorem mem_closureOf_iff {seeds : List Pair} {pair : Pair} :
    pair ∈ (ofRules rules).closureOf seeds ↔
      ∃ seed ∈ seeds, Relation.ReflTransGen (StepsTo rules) seed pair := by
  rw [closureOf, walkForward_eq_finish,
    Walk.mem_met_finish_iff fun _ _ => mem_implied_of_leads, leads_impliedBy]

theorem mem_closure_iff {start pair : Pair} :
    pair ∈ (ofRules rules).closure start ↔ Relation.ReflTransGen (StepsTo rules) start pair := by
  simp [closure, mem_closureOf_iff]

theorem mem_closure_self (graph : RuleGraph) (pair : Pair) : pair ∈ graph.closure pair :=
  Walk.mem_met_run_of_mem (Walk.mem_met_start.mpr (List.mem_singleton.mpr rfl)) _

theorem eq_or_mem_closure_iff {graph : RuleGraph} {pair seed : Pair} :
    pair = seed ∨ pair ∈ graph.closure seed ↔ pair ∈ graph.closure seed :=
  or_iff_right_of_imp fun h => h ▸ graph.mem_closure_self seed

theorem forall_mem_closure {motive : Pair → Prop}
    (himplied : ∀ rule ∈ rules, motive rule.implied) {start : Pair} (hstart : motive start) :
    ∀ pair ∈ (ofRules rules).closure start, motive pair := by
  intro pair hpair
  induction mem_closure_iff.mp hpair with
  | refl => exact hstart
  | tail _ hstep _ =>
      obtain ⟨rule, hrule, -, rfl⟩ := hstep
      exact himplied rule hrule

theorem exists_pair_closure_tag_iff {tag other : TagId} :
    (∃ pair : Pair, pair.tag = tag ∧
        ∃ reached ∈ (ofRules rules).closure pair, reached.tag = other) ↔
      tag = other ∨ ∃ rule ∈ rules, rule.source.tag = tag ∧
        ∃ reached ∈ (ofRules rules).closure rule.implied, reached.tag = other := by
  simp only [mem_closure_iff]
  constructor
  · rintro ⟨pair, rfl, reached, hwalk, rfl⟩
    cases hwalk using Relation.ReflTransGen.head_induction_on with
    | refl => exact .inl rfl
    | head hstep hrest =>
        obtain ⟨rule, hrule, hunder, rfl⟩ := hstep
        exact .inr ⟨rule, hrule, hunder.1.symm, reached, hrest, rfl⟩
  · rintro (rfl | ⟨rule, hrule, rfl, reached, hwalk, rfl⟩)
    · exact ⟨.any tag, rfl, .any tag, .refl, rfl⟩
    · exact ⟨rule.source, rfl, reached, .head ⟨rule, hrule, .refl _, rfl⟩ hwalk, rfl⟩

theorem mem_implyingClosure_iff {seeds : List Pair} {pair : Pair} :
    pair ∈ (ofRules rules).implyingClosure seeds ↔
      ∃ seed ∈ seeds, Relation.ReflTransGen (StepsBackTo rules) seed pair := by
  rw [implyingClosure, walkBackward_eq_finish,
    Walk.mem_met_finish_iff fun _ _ => mem_source_of_leads, leads_implying]

section SameMembers

variable {others : List Rule} {seeds starts : List Pair}
  (hrules : ∀ rule, rule ∈ others ↔ rule ∈ rules) (hseeds : ∀ pair, pair ∈ starts ↔ pair ∈ seeds)

include hrules

theorem stepsTo_congr : StepsTo others = StepsTo rules := by
  funext pair reached
  simp only [StepsTo, hrules]

theorem stepsBackTo_congr : StepsBackTo others = StepsBackTo rules := by
  funext pair reached
  simp only [StepsBackTo, hrules]

include hseeds

theorem closureOf_congr : (ofRules others).closureOf starts = (ofRules rules).closureOf seeds := by
  apply OrderedSet.ext_mem
  intro pair
  simp only [mem_closureOf_iff, stepsTo_congr hrules, hseeds]

theorem implyingClosure_congr :
    (ofRules others).implyingClosure starts = (ofRules rules).implyingClosure seeds := by
  apply OrderedSet.ext_mem
  intro pair
  simp only [mem_implyingClosure_iff, stepsBackTo_congr hrules, hseeds]

end SameMembers

/-- Walking back from `goal` one meets a pair above `pair` just when walking on from `pair` one
meets a pair below `goal`. -/
theorem exists_back_iff_exists_forward {goal pair : Pair} :
    (∃ other, Relation.ReflTransGen (StepsBackTo rules) goal other ∧ pair.FallsUnder other) ↔
      ∃ reached, Relation.ReflTransGen (StepsTo rules) pair reached ∧ reached.FallsUnder goal := by
  constructor
  · rintro ⟨other, hback, hunder⟩
    induction hback generalizing pair with
    | refl => exact ⟨pair, .refl, hunder⟩
    | tail _ hstep ih =>
        obtain ⟨rule, hrule, himplied, rfl⟩ := hstep
        obtain ⟨reached, hforward, hreached⟩ := ih himplied
        exact ⟨reached, .head ⟨rule, hrule, hunder, rfl⟩ hforward, hreached⟩
  · rintro ⟨reached, hforward, hreached⟩
    induction hforward using Relation.ReflTransGen.head_induction_on with
    | refl => exact ⟨goal, .refl, hreached⟩
    | head hstep _ ih =>
        obtain ⟨rule, hrule, hsource, rfl⟩ := hstep
        obtain ⟨other, hback, hunder⟩ := ih
        exact ⟨rule.source, hback.tail ⟨rule, hrule, hunder, rfl⟩, hsource⟩

theorem exists_mem_implyingClosure_iff {seeds : List Pair} {pair : Pair} :
    (∃ other ∈ (ofRules rules).implyingClosure seeds, pair.FallsUnder other) ↔
      ∃ seed ∈ seeds, ∃ reached ∈ (ofRules rules).closure pair, reached.FallsUnder seed := by
  simp only [mem_implyingClosure_iff, mem_closure_iff]
  constructor
  · rintro ⟨other, ⟨seed, hseed, hback⟩, hunder⟩
    exact ⟨seed, hseed, exists_back_iff_exists_forward.mp ⟨other, hback, hunder⟩⟩
  · rintro ⟨seed, hseed, hforward⟩
    obtain ⟨other, hback, hunder⟩ := exists_back_iff_exists_forward.mpr hforward
    exact ⟨other, ⟨seed, hseed, hback⟩, hunder⟩

/-- What implies the seeds covers exactly the facts that imply something under a seed. -/
theorem covers_implyingClosure_iff (rules : List Rule) (seeds : List Pair) (fact : Fact) :
    ((ofRules rules).implyingClosure seeds).covers fact = true ↔
      ∃ seed ∈ seeds, ∃ reached ∈ (ofRules rules).closure fact.pair,
        reached.tag = seed.tag ∧
          (seed.selector = .any ∨ seed.selector = reached.selector) := by
  rw [PairSet.covers_iff]
  exact exists_mem_implyingClosure_iff

/-- Closures hold just the pairs that walks along the rules reach from the seeds, forward and
backward, whatever the order and the repetitions of both. -/
theorem closures_exact (rules : List Rule) (seeds : List Pair) :
    (∀ pair, pair ∈ (ofRules rules).closureOf seeds ↔
      ∃ seed ∈ seeds, Relation.ReflTransGen (StepsTo rules) seed pair) ∧
    (∀ pair, pair ∈ (ofRules rules).implyingClosure seeds ↔
      ∃ seed ∈ seeds, Relation.ReflTransGen (StepsBackTo rules) seed pair) ∧
    ∀ others starts, (∀ rule, rule ∈ others ↔ rule ∈ rules) →
      (∀ pair, pair ∈ starts ↔ pair ∈ seeds) →
      (ofRules others).closureOf starts = (ofRules rules).closureOf seeds ∧
        (ofRules others).implyingClosure starts = (ofRules rules).implyingClosure seeds := by
  refine ⟨fun _ => mem_closureOf_iff, fun _ => mem_implyingClosure_iff, ?_⟩
  intro others starts hrules hseeds
  exact ⟨closureOf_congr hrules hseeds, implyingClosure_congr hrules hseeds⟩

theorem closures_exact_circle :
    let first : Rule := ⟨.exact ⟨1⟩ ⟨1⟩, .any ⟨2⟩⟩
    let second : Rule := ⟨.any ⟨2⟩, .exact ⟨3⟩ ⟨1⟩⟩
    let third : Rule := ⟨.any ⟨3⟩, .exact ⟨1⟩ ⟨1⟩⟩
    let seeds : List Pair := [.exact ⟨1⟩ ⟨1⟩, .any ⟨4⟩]
    Pair.exact ⟨3⟩ ⟨1⟩ ∈ (ofRules [first, second, third]).closureOf seeds ∧
      (ofRules [third, first, second, first]).closureOf [.any ⟨4⟩, .exact ⟨1⟩ ⟨1⟩, .any ⟨4⟩] =
        (ofRules [first, second, third]).closureOf seeds ∧
      (ofRules [third, first, second, first]).implyingClosure
          [.any ⟨4⟩, .exact ⟨1⟩ ⟨1⟩, .any ⟨4⟩] =
        (ofRules [first, second, third]).implyingClosure seeds := by
  intro first second third seeds
  obtain ⟨hforward, -, hsame⟩ := closures_exact [first, second, third] seeds
  refine ⟨(hforward _).mpr ?_, hsame _ _ ?_ ?_⟩
  · have hfirst : StepsTo [first, second, third] (.exact ⟨1⟩ ⟨1⟩) (.any ⟨2⟩) :=
      ⟨first, by simp, .refl _, rfl⟩
    have hsecond : StepsTo [first, second, third] (.any ⟨2⟩) (.exact ⟨3⟩ ⟨1⟩) :=
      ⟨second, by simp, .refl _, rfl⟩
    exact ⟨.exact ⟨1⟩ ⟨1⟩, by simp [seeds], .head hfirst (.single hsecond)⟩
  · intro rule
    simp only [List.mem_cons, List.not_mem_nil, or_false]
    tauto
  · intro pair
    simp only [seeds, List.mem_cons, List.not_mem_nil, or_false]
    tauto

end RuleGraph

end TagBase
