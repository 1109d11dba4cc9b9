import TagBase.Proofs.Rule.Closure

/-!
Walks to the end. A walk goes on as long as a pair is queued, whatever number of steps that takes.
It ends, as a step takes a pair from the queue that none took before and there are only so many to
be met: the distinct seeds, and one more for each distinct rule.
-/

namespace TagBase

namespace Walk

variable {next : Pair → List Pair} {walk last : Walk} {taken : List Pair}

/-- Steps are taken until nothing is queued. The list holds the pairs that they take from the
queue, the first one first. -/
inductive Drains (next : Pair → List Pair) : Walk → List Pair → Walk → Prop
  | rest {walk : Walk} (hqueue : walk.queue = []) : Drains next walk [] walk
  | take {walk last : Walk} {pair : Pair} {behind taken : List Pair}
      (hqueue : walk.queue = pair :: behind) (hrest : Drains next (walk.step next) taken last) :
      Drains next walk (pair :: taken) last

theorem Drains.queue_eq_nil (h : Drains next walk taken last) : last.queue = [] := by
  induction h with
  | rest hqueue => exact hqueue
  | take _ _ ih => exact ih

theorem Drains.tidy (h : Drains next walk taken last) (hwalk : walk.Tidy) : last.Tidy := by
  induction h with
  | rest => exact hwalk
  | take _ _ ih => exact ih (hwalk.step next)

theorem Drains.expanded_eq (h : Drains next walk taken last) :
    last.expanded = walk.expanded ++ taken := by
  induction h with
  | rest => simp
  | take hqueue _ ih => rw [ih, expanded_step hqueue, List.append_assoc, List.singleton_append]

theorem Drains.unique {others : List Pair} {other : Walk} (h : Drains next walk taken last)
    (hother : Drains next walk others other) : others = taken ∧ other = last := by
  induction h generalizing others other with
  | rest hqueue =>
      cases hother with
      | rest => exact ⟨rfl, rfl⟩
      | take hqueue' => simp [hqueue] at hqueue'
  | take hqueue _ ih =>
      cases hother with
      | rest hqueue' => simp [hqueue] at hqueue'
      | take hqueue' hrest' =>
          obtain ⟨rfl, rfl⟩ := List.cons.inj (hqueue.symm.trans hqueue')
          obtain ⟨rfl, rfl⟩ := ih hrest'
          exact ⟨rfl, rfl⟩

theorem exists_drains {steps : Nat} (h : (walk.run next steps).queue = []) :
    ∃ taken, Drains next walk taken (walk.run next steps) := by
  induction steps generalizing walk with
  | zero => exact ⟨[], .rest h⟩
  | succ steps ih =>
      cases hqueue : walk.queue with
      | nil =>
          rw [run_of_queue_eq_nil hqueue]
          exact ⟨[], .rest hqueue⟩
      | cons pair behind =>
          obtain ⟨taken, hrest⟩ := ih h
          exact ⟨pair :: taken, .take hqueue hrest⟩

/-- From the seeds there is one run to the end. It leaves nothing queued, it meets the pairs of a
set, and it takes each of them from the queue once. -/
structure Exhausts (next : Pair → List Pair) (seeds taken : List Pair) (pairs : PairSet) :
    Prop where
  exists_drains : ∃ last, Drains next (start seeds) taken last ∧ last.queue = [] ∧ last.met = pairs
  unique : ∀ others other, Drains next (start seeds) others other → others = taken
  nodup : taken.Nodup
  mem_iff : ∀ pair, pair ∈ taken ↔ pair ∈ pairs
  length_eq : taken.length = pairs.size

theorem Drains.exhausts {seeds : List Pair} (h : Drains next (start seeds) taken last) :
    Exhausts next seeds taken last.met := by
  have hqueue : last.queue = [] := h.queue_eq_nil
  have hexpanded : last.expanded = taken := by
    simpa [expanded_start] using h.expanded_eq
  have htidy : last.Tidy := h.tidy (tidy_start seeds)
  have hnodup : taken.Nodup := by
    simpa [hexpanded, hqueue] using htidy.nodup
  have hmem : ∀ pair, pair ∈ taken ↔ pair ∈ last.met := by
    intro pair
    simpa [hexpanded, hqueue] using (htidy.mem_met_iff pair).symm
  refine ⟨⟨last, h, hqueue, rfl⟩, fun _ _ hother => (h.unique hother).1, hnodup, hmem, ?_⟩
  exact ((List.perm_ext_iff_of_nodup hnodup last.met.nodup_toList).mpr hmem).length_eq

theorem exists_exhausts {targets : List Pair}
    (hnext : ∀ pair neighbour, Leads next pair neighbour → neighbour ∈ targets)
    (seeds : List Pair) :
    ∃ taken, Exhausts next seeds taken (finish next targets seeds).met ∧
      taken.length ≤ seeds.eraseDups.length + targets.length := by
  obtain ⟨taken, hdrains⟩ := exists_drains (queue_finish hnext seeds)
  have hexhausts := hdrains.exhausts
  have hsub : taken ⊆ seeds.eraseDups ++ targets := by
    intro pair hpair
    obtain ⟨seed, hseed, hwalk⟩ := (mem_met_finish_iff hnext).mp ((hexhausts.mem_iff pair).mp hpair)
    cases hwalk with
    | refl => exact List.mem_append_left _ (List.mem_eraseDups.mpr hseed)
    | tail _ hlast => exact List.mem_append_right _ (hnext _ _ hlast)
  refine ⟨taken, hexhausts, ?_⟩
  simpa using (List.subperm_of_subset hexhausts.nodup hsub).length_le

end Walk

namespace RuleGraph

/-- In either direction the walk of a closure comes to its end by itself. It takes as many pairs
from the queue as the closure holds, none of them twice, and so no more than there are distinct
seeds and distinct rules. -/
theorem closure_walks_exhaust (rules : List Rule) (seeds : List Pair) :
    (∃ taken,
      Walk.Exhausts (ofRules rules).impliedBy seeds taken ((ofRules rules).closureOf seeds) ∧
        taken.length ≤ seeds.eraseDups.length + rules.eraseDups.length) ∧
    ∃ taken,
      Walk.Exhausts (ofRules rules).implying seeds taken ((ofRules rules).implyingClosure seeds) ∧
        taken.length ≤ seeds.eraseDups.length + rules.eraseDups.length := by
  constructor
  · rw [closureOf, walkForward_eq_finish, ← List.length_map Rule.implied]
    exact Walk.exists_exhausts (fun _ _ => mem_implied_of_leads) seeds
  · rw [implyingClosure, walkBackward_eq_finish, ← List.length_map Rule.source]
    exact Walk.exists_exhausts (fun _ _ => mem_source_of_leads) seeds

end RuleGraph

end TagBase
