import Mathlib.Data.List.Nodup
import Mathlib.Data.List.Perm.Basic
import Mathlib.Logic.Relation
import TagBase.Rule.Walk

namespace TagBase.Walk

variable {next : Pair → List Pair}

def Leads (next : Pair → List Pair) (pair neighbour : Pair) : Prop := neighbour ∈ next pair

theorem mem_met_meet {walk : Walk} {pair other : Pair} :
    other ∈ (walk.meet pair).met ↔ other = pair ∨ other ∈ walk.met := by
  rw [meet]
  split
  · rename_i hpair
    constructor
    · exact .inr
    · rintro (rfl | hother)
      · exact hpair
      · exact hother
  · exact OrderedSet.mem_insert

theorem mem_met_meetAll {walk : Walk} {pairs : List Pair} {other : Pair} :
    other ∈ (walk.meetAll pairs).met ↔ other ∈ pairs ∨ other ∈ walk.met := by
  induction pairs generalizing walk with
  | nil => simp [meetAll]
  | cons pair rest ih =>
      change other ∈ ((walk.meet pair).meetAll rest).met ↔ _
      rw [ih, mem_met_meet, List.mem_cons]
      constructor
      · rintro (h | h | h) <;> simp [h]
      · rintro ((h | h) | h) <;> simp [h]

theorem expanded_meetAll (walk : Walk) (pairs : List Pair) :
    (walk.meetAll pairs).expanded = walk.expanded := by
  induction pairs generalizing walk with
  | nil => rfl
  | cons pair rest ih =>
      change ((walk.meet pair).meetAll rest).expanded = _
      rw [ih, meet]
      split <;> rfl

/-- The met pairs are the expanded and the queued ones, and each of them is there once. -/
structure Tidy (walk : Walk) : Prop where
  nodup : (walk.expanded ++ walk.queue).Nodup
  mem_met_iff : ∀ pair, pair ∈ walk.met ↔ pair ∈ walk.expanded ++ walk.queue

theorem Tidy.meet {walk : Walk} (h : walk.Tidy) (pair : Pair) : (walk.meet pair).Tidy := by
  by_cases hpair : pair ∈ walk.met
  · simpa [Walk.meet, hpair] using h
  · have hnew : pair ∉ walk.expanded ++ walk.queue := by
      rwa [← h.mem_met_iff]
    constructor
    · simp only [Walk.meet, hpair, if_false, ← List.append_assoc]
      exact List.nodup_append_comm.mp (List.nodup_cons.mpr ⟨hnew, h.nodup⟩)
    · intro other
      rw [mem_met_meet, h.mem_met_iff]
      simp only [Walk.meet, hpair, if_false, List.mem_append, List.mem_singleton]
      constructor
      · rintro (h | h | h) <;> simp [h]
      · rintro (h | h | h) <;> simp [h]

theorem Tidy.meetAll {walk : Walk} (h : walk.Tidy) (pairs : List Pair) :
    (walk.meetAll pairs).Tidy := by
  induction pairs generalizing walk with
  | nil => exact h
  | cons pair rest ih => exact ih (h.meet pair)

theorem tidy_start (seeds : List Pair) : (start seeds).Tidy := by
  apply Tidy.meetAll
  constructor
  · exact List.nodup_nil
  · intro pair
    simp

theorem Tidy.step {walk : Walk} (h : walk.Tidy) (next : Pair → List Pair) :
    (walk.step next).Tidy := by
  rw [Walk.step]
  split
  · exact h
  · rename_i pair rest hqueue
    apply Tidy.meetAll
    constructor
    · simpa [hqueue] using h.nodup
    · intro other
      simpa [hqueue] using h.mem_met_iff other

theorem Tidy.run {walk : Walk} (h : walk.Tidy) (next : Pair → List Pair) (steps : Nat) :
    (walk.run next steps).Tidy := by
  induction steps generalizing walk with
  | zero => exact h
  | succ steps ih => exact ih (h.step next)

theorem run_of_queue_eq_nil {walk : Walk} (h : walk.queue = []) (steps : Nat) :
    walk.run next steps = walk := by
  induction steps with
  | zero => rfl
  | succ steps ih => rw [run, show walk.step next = walk by rw [step, h], ih]

theorem mem_met_step_of_mem {walk : Walk} {pair : Pair} (h : pair ∈ walk.met) :
    pair ∈ (walk.step next).met := by
  rw [step]
  split
  · exact h
  · exact mem_met_meetAll.mpr (.inr h)

theorem mem_met_run_of_mem {walk : Walk} {pair : Pair} (h : pair ∈ walk.met) (steps : Nat) :
    pair ∈ (walk.run next steps).met := by
  induction steps generalizing walk with
  | zero => exact h
  | succ steps ih => exact ih (mem_met_step_of_mem h)

theorem forall_met_run {motive : Pair → Prop} {walk : Walk}
    (hnext : ∀ pair neighbour, motive pair → Leads next pair neighbour → motive neighbour)
    (h : walk.Tidy) (hmet : ∀ pair ∈ walk.met, motive pair) (steps : Nat) :
    ∀ pair ∈ (walk.run next steps).met, motive pair := by
  induction steps generalizing walk with
  | zero => exact hmet
  | succ steps ih =>
      refine ih (h.step next) ?_
      intro pair hpair
      rw [step] at hpair
      split at hpair
      · exact hmet pair hpair
      · rename_i first rest hqueue
        rcases mem_met_meetAll.mp hpair with hpair | hpair
        · have hfirst : first ∈ walk.met := (h.mem_met_iff first).mpr (by simp [hqueue])
          exact hnext first pair (hmet first hfirst) hpair
        · exact hmet pair hpair

def Closed (next : Pair → List Pair) (walk : Walk) : Prop :=
  ∀ pair ∈ walk.expanded, ∀ neighbour, Leads next pair neighbour → neighbour ∈ walk.met

theorem expanded_start (seeds : List Pair) : (start seeds).expanded = [] :=
  expanded_meetAll _ seeds

theorem closed_start (seeds : List Pair) : (start seeds).Closed next := by
  intro pair hpair
  simp [expanded_start] at hpair

theorem Closed.step {walk : Walk} (h : walk.Closed next) : (walk.step next).Closed next := by
  intro pair hpair neighbour hneighbour
  rw [Walk.step] at hpair ⊢
  split at hpair
  · exact h pair hpair neighbour hneighbour
  · rename_i first rest hqueue
    rw [expanded_meetAll] at hpair
    rcases List.mem_append.mp hpair with hpair | hpair
    · exact mem_met_meetAll.mpr (.inr (h pair hpair neighbour hneighbour))
    · obtain rfl := List.mem_singleton.mp hpair
      exact mem_met_meetAll.mpr (.inl hneighbour)

theorem Closed.run {walk : Walk} (h : walk.Closed next) (steps : Nat) :
    (walk.run next steps).Closed next := by
  induction steps generalizing walk with
  | zero => exact h
  | succ steps ih => exact ih h.step

theorem expanded_step {walk : Walk} {pair : Pair} {behind : List Pair}
    (hqueue : walk.queue = pair :: behind) :
    (walk.step next).expanded = walk.expanded ++ [pair] := by
  rw [step, hqueue]
  exact expanded_meetAll _ _

theorem length_expanded_step {walk : Walk} (h : walk.queue ≠ []) :
    (walk.step next).expanded.length = walk.expanded.length + 1 := by
  obtain ⟨pair, behind, hqueue⟩ := List.exists_cons_of_ne_nil h
  rw [expanded_step hqueue, List.length_append, List.length_singleton]

theorem Tidy.length_le {walk : Walk} (h : walk.Tidy) {bound : List Pair}
    (hbound : ∀ pair ∈ walk.met, pair ∈ bound) :
    walk.expanded.length + walk.queue.length ≤ bound.length := by
  have hsub : walk.expanded ++ walk.queue ⊆ bound :=
    fun pair hpair => hbound pair ((h.mem_met_iff pair).mpr hpair)
  simpa using (List.subperm_of_subset h.nodup hsub).length_le

theorem queue_run_eq_nil {walk : Walk} (h : walk.Tidy) (bound : List Pair)
    (hnext : ∀ pair neighbour, pair ∈ bound → Leads next pair neighbour → neighbour ∈ bound)
    (hbound : ∀ pair ∈ walk.met, pair ∈ bound) {steps : Nat}
    (hsteps : bound.length ≤ walk.expanded.length + steps) :
    (walk.run next steps).queue = [] := by
  induction steps generalizing walk with
  | zero =>
      have hlength := h.length_le hbound
      exact List.eq_nil_of_length_eq_zero (show walk.queue.length = 0 by omega)
  | succ steps ih =>
      by_cases hqueue : walk.queue = []
      · rw [run_of_queue_eq_nil hqueue, hqueue]
      · apply ih (h.step next) (forall_met_run hnext h hbound 1)
        rw [length_expanded_step hqueue]
        omega

/-- The end of a walk whose steps all lead into `targets`, after one step for each of its distinct
seeds and one for each target. -/
def finish (next : Pair → List Pair) (targets seeds : List Pair) : Walk :=
  (start seeds).run next ((start seeds).met.size + targets.length)

theorem mem_met_start {seeds : List Pair} {pair : Pair} :
    pair ∈ (start seeds).met ↔ pair ∈ seeds := by
  simp [start, mem_met_meetAll]

section Finish

variable {targets : List Pair}

theorem queue_finish (hnext : ∀ pair neighbour, Leads next pair neighbour → neighbour ∈ targets)
    (seeds : List Pair) : (finish next targets seeds).queue = [] := by
  apply queue_run_eq_nil (tidy_start seeds) ((start seeds).met.toList ++ targets)
  · intro pair neighbour _ hneighbour
    exact List.mem_append_right _ (hnext pair neighbour hneighbour)
  · intro pair hpair
    exact List.mem_append_left _ hpair
  · simp [OrderedSet.size]

theorem mem_met_finish_iff
    (hnext : ∀ pair neighbour, Leads next pair neighbour → neighbour ∈ targets)
    {seeds : List Pair} {pair : Pair} :
    pair ∈ (finish next targets seeds).met ↔
      ∃ seed ∈ seeds, Relation.ReflTransGen (Leads next) seed pair := by
  constructor
  · intro hpair
    refine forall_met_run
      (motive := fun pair => ∃ seed ∈ seeds, Relation.ReflTransGen (Leads next) seed pair)
      ?_ (tidy_start seeds) ?_ _ pair hpair
    · rintro pair neighbour ⟨seed, hseed, hpath⟩ hneighbour
      exact ⟨seed, hseed, hpath.tail hneighbour⟩
    · intro pair hpair
      exact ⟨pair, mem_met_start.mp hpair, .refl⟩
  · rintro ⟨seed, hseed, hpath⟩
    have htidy : (finish next targets seeds).Tidy := (tidy_start seeds).run next _
    have hclosed : (finish next targets seeds).Closed next := (closed_start seeds).run _
    induction hpath with
    | refl => exact mem_met_run_of_mem (mem_met_start.mpr hseed) _
    | tail _ hneighbour ih =>
        have hexpanded := (htidy.mem_met_iff _).mp ih
        rw [queue_finish hnext seeds, List.append_nil] at hexpanded
        exact hclosed _ hexpanded _ hneighbour

end Finish

end TagBase.Walk
