import Mathlib.Logic.Relation
import TagBase.Proofs.Query.Terms

/-!
Pruning: parts that ask for nothing are dropped from a query until none is left, or nothing else.
The text that shows a query leaves out a side that is the query for everything, but not a
conjunction of such sides; so it shows the pruned query just where no conjunction is left hollow.
-/

namespace TagBase

namespace Query

open Relation (ReflTransGen)

/-- In one place of a query, a conjunction with a side that asks for nothing makes way for its other
side. -/
inductive Drops : Query → Query → Prop
  | left (right : Query) : Drops (.both .everything right) right
  | right (left : Query) : Drops (.both left .everything) left
  | inLeft {left other : Query} (h : Drops left other) (right : Query) :
      Drops (.both left right) (.both other right)
  | inRight {right other : Query} (h : Drops right other) (left : Query) :
      Drops (.both left right) (.both left other)

/-- What is left of a query when nothing more can be dropped. -/
def DropsAll (query pruned : Query) : Prop :=
  ReflTransGen Drops query pruned ∧ ∀ next, ¬ Drops pruned next

def join : Query → Query → Query
  | .everything, right => right
  | left, .everything => left
  | left, right => .both left right

def prune : Query → Query
  | .both left right => join left.prune right.prune
  | query => query

theorem join_everything (left : Query) : join left .everything = left := by
  cases left <;> rfl

theorem join_of_ne {left right : Query} (hleft : left ≠ .everything)
    (hright : right ≠ .everything) : join left right = .both left right := by
  rw [join.eq_def]
  split <;> simp_all

theorem Drops.prune_eq {query other : Query} (h : Drops query other) :
    query.prune = other.prune := by
  induction h with
  | left right => rfl
  | right left => exact join_everything left.prune
  | inLeft _ right ih => rw [prune, prune, ih]
  | inRight _ left ih => rw [prune, prune, ih]

theorem Asking.ne_everything {query : Query} (h : query.Asking) : query ≠ .everything := by
  rintro rfl
  exact h

theorem Asking.prune_eq {query : Query} (h : query.Asking) : query.prune = query := by
  induction query with
  | both left right ihleft ihright =>
      obtain ⟨hleft, hright⟩ := h
      rw [prune, ihleft hleft, ihright hright, join_of_ne hleft.ne_everything hright.ne_everything]
  | _ => rfl

theorem forall_not_drops_iff {query : Query} :
    (∀ next, ¬ Drops query next) ↔ query = .everything ∨ query.Asking := by
  induction query with
  | everything => simpa using nofun
  | tagged | anyValue | valued => exact ⟨fun _ => .inr trivial, fun _ => nofun⟩
  | both left right ihleft ihright =>
      constructor
      · intro h
        have hleft := ihleft.mp fun next hnext => h _ (.inLeft hnext right)
        have hright := ihright.mp fun next hnext => h _ (.inRight hnext left)
        rcases hleft with rfl | hleft
        · exact absurd (.left right) (h right)
        rcases hright with rfl | hright
        · exact absurd (.right left) (h left)
        exact .inr ⟨hleft, hright⟩
      · rintro (hnothing | ⟨hleft, hright⟩) next hnext
        · cases hnothing
        cases hnext with
        | left => exact hleft
        | right => exact hright
        | inLeft hnext => exact ihleft.mpr (.inr hleft) _ hnext
        | inRight hnext => exact ihright.mpr (.inr hright) _ hnext

theorem reflTransGen_drops_join (left right : Query) :
    ReflTransGen Drops (.both left right) (join left right) := by
  rcases eq_or_ne left .everything with rfl | hleft
  · exact .single (.left right)
  rcases eq_or_ne right .everything with rfl | hright
  · rw [join_everything]
    exact .single (.right left)
  · rw [join_of_ne hleft hright]

theorem reflTransGen_drops_prune (query : Query) : ReflTransGen Drops query query.prune := by
  induction query with
  | both left right ihleft ihright =>
      have hleft : ReflTransGen Drops (.both left right) (.both left.prune right) :=
        ihleft.lift (Query.both · right) fun _ _ h => .inLeft h right
      have hright : ReflTransGen Drops (.both left.prune right) (.both left.prune right.prune) :=
        ihright.lift (Query.both left.prune) fun _ _ h => .inRight h left.prune
      refine (hleft.trans hright).trans (reflTransGen_drops_join left.prune right.prune)
  | _ => exact .refl

theorem eq_everything_or_asking_prune (query : Query) :
    query.prune = .everything ∨ query.prune.Asking := by
  induction query with
  | everything => exact .inl rfl
  | tagged | anyValue | valued => exact .inr trivial
  | both left right ihleft ihright =>
      rw [prune]
      rcases ihleft with hleft | hleft
      · rwa [hleft]
      rcases ihright with hright | hright
      · rw [hright, join_everything]
        exact .inr hleft
      · rw [join_of_ne hleft.ne_everything hright.ne_everything]
        exact .inr ⟨hleft, hright⟩

theorem prune_eq_of_reflTransGen {query other : Query} (h : ReflTransGen Drops query other) :
    query.prune = other.prune := by
  induction h with
  | refl => rfl
  | tail _ hdrops ih => exact ih.trans hdrops.prune_eq

/-- In whatever order parts are dropped, the same query is left. -/
theorem dropsAll_iff {query pruned : Query} : DropsAll query pruned ↔ pruned = query.prune := by
  constructor
  · rintro ⟨hdrops, hlast⟩
    rw [prune_eq_of_reflTransGen hdrops]
    rcases forall_not_drops_iff.mp hlast with rfl | hasking
    · rfl
    · exact hasking.prune_eq.symm
  · rintro rfl
    exact ⟨reflTransGen_drops_prune query,
      forall_not_drops_iff.mpr (eq_everything_or_asking_prune query)⟩

/-- The number of conjunctions that are shown as such although one side asks for nothing. Such a
side is itself a conjunction, else it would be left out. -/
def hollow : Query → Nat
  | .both .everything right => right.hollow
  | .both left .everything => left.hollow
  | .both left right =>
      left.hollow + right.hollow + if left.terms = [] ∨ right.terms = [] then 1 else 0
  | _ => 0

theorem prune_eq_everything_iff {query : Query} : query.prune = .everything ↔ query.terms = [] := by
  induction query with
  | everything => exact iff_of_true rfl rfl
  | tagged | anyValue | valued => simp [prune, terms]
  | both left right ihleft ihright =>
      rw [terms, List.append_eq_nil_iff, ← ihleft, ← ihright, prune]
      rcases eq_or_ne left.prune .everything with hleft | hleft
      · rw [hleft, join, eq_self, true_and]
      rcases eq_or_ne right.prune .everything with hright | hright
      · rw [hright, join_everything]
        simp
      · rw [join_of_ne hleft hright]
        exact iff_of_false (by simp) fun h => hleft h.1

theorem render_both {left right : Query} (hleft : left ≠ .everything)
    (hright : right ≠ .everything) :
    (Query.both left right).render = "(" ++ left.render ++ " and " ++ right.render ++ ")" := by
  rw [render]
  all_goals assumption

theorem render_both_everything (left : Query) :
    (Query.both left .everything).render = left.render := by
  cases left <;> rfl

theorem length_render_both {left right : Query} (hleft : left ≠ .everything)
    (hright : right ≠ .everything) :
    (Query.both left right).render.length = left.render.length + right.render.length + 7 := by
  rw [render_both hleft hright]
  simp only [String.length_append]
  have hopen : "(".length = 1 := rfl
  have hand : " and ".length = 5 := rfl
  have hclose : ")".length = 1 := rfl
  omega

theorem length_render_join (left right : Query) :
    (join left right).render.length +
        7 * (if left = .everything ∨ right = .everything then 1 else 0) =
      left.render.length + right.render.length + 7 := by
  have hnothing : Query.everything.render.length = 0 := rfl
  rcases eq_or_ne left .everything with rfl | hleft
  · rw [join, if_pos (.inl rfl)]
    omega
  rcases eq_or_ne right .everything with rfl | hright
  · rw [join_everything, if_pos (.inr rfl)]
    omega
  · rw [join_of_ne hleft hright, length_render_both hleft hright, if_neg (by simp [hleft, hright])]

theorem length_render (query : Query) :
    query.render.length = query.prune.render.length + 7 * query.hollow := by
  fun_induction Query.hollow query with
  | case1 right ih => exact ih
  | case2 left hleft ih =>
      change _ = (join left.prune .everything).render.length + _
      rw [render_both_everything, join_everything, ih]
  | case3 left right hleft hright ihleft ihright =>
      have hjoin := length_render_join left.prune right.prune
      simp only [prune_eq_everything_iff] at hjoin
      rw [length_render_both hleft hright, prune]
      omega
  | case4 query hleft hright hboth =>
      cases query with
      | both left right => exact (hboth left right rfl).elim
      | _ => rfl

theorem render_prune_of_hollow_eq_zero {query : Query} (h : query.hollow = 0) :
    query.prune.render = query.render := by
  fun_induction Query.hollow query with
  | case1 right ih => exact ih h
  | case2 left hleft ih =>
      change (join left.prune .everything).render = _
      rw [render_both_everything, join_everything, ih h]
  | case3 left right hleft hright ihleft ihright =>
      have hsides : ¬ (left.terms = [] ∨ right.terms = []) := by
        intro hsides
        rw [if_pos hsides] at h
        omega
      rw [← prune_eq_everything_iff, ← prune_eq_everything_iff, not_or] at hsides
      rw [prune, join_of_ne hsides.1 hsides.2, render_both hsides.1 hsides.2,
        render_both hleft hright, ihleft (by omega), ihright (by omega)]
  | case4 query hleft hright hboth =>
      cases query with
      | both left right => exact (hboth left right rfl).elim
      | _ => rfl

/-- Whatever the order in which the parts that ask for nothing are dropped, the same query is left.
Its text is the text of the query if and only if no conjunction of the query is hollow; else each
hollow one makes the text longer by seven characters. -/
theorem exists_dropsAll_render_iff (query : Query) :
    ∃ pruned, (∀ other, DropsAll query other ↔ other = pruned) ∧
      query.render.length = pruned.render.length + 7 * query.hollow ∧
      (query.render = pruned.render ↔ query.hollow = 0) := by
  refine ⟨query.prune, fun _ => dropsAll_iff, length_render query, ?_⟩
  constructor
  · intro hsame
    have hlength := length_render query
    rw [hsame] at hlength
    omega
  · exact fun h => (render_prune_of_hollow_eq_zero h).symm

/-- A side that asks for nothing is shown where it is a conjunction itself, although dropping what
asks for nothing leaves the one tag. -/
theorem render_hollow_conjunction :
    let query : Query := .both (.both .everything .everything) (.tagged "x")
    DropsAll query (.tagged "x") ∧ query.render = "( and x)" ∧
      query.render ≠ (Query.tagged "x").render :=
  ⟨dropsAll_iff.mpr rfl, by decide, by decide⟩

end Query

end TagBase
