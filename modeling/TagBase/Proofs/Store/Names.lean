import Mathlib.Data.List.Perm.Basic
import TagBase.Proofs.Store.History

/-!
Names in the course of a history. A history asks for finitely many names. While these are fewer than
the numbers, the tables of names stay inverse to each other and every name keeps its number.
-/

namespace TagBase

namespace Registry

variable {kind : Kind}

def names (registry : Registry kind) : List String := registry.idOfName.map Prod.fst

theorem idOf?_eq_none_iff {registry : Registry kind} {name : String} :
    registry.idOf? name = none ↔ name ∉ registry.names := by
  rw [idOf?, List.lookup_eq_none_iff, names, List.mem_map, not_exists]
  refine forall_congr' fun entry => ?_
  rw [not_and, bne_iff_ne, ne_comm]

def KeptBy (registry left : Registry kind) : Prop :=
  ∀ name id, registry.idOf? name = some id → left.idOf? name = some id

theorem KeptBy.refl (registry : Registry kind) : registry.KeptBy registry := fun _ _ hid => hid

theorem KeptBy.trans {registry middle left : Registry kind} (h : registry.KeptBy middle)
    (hleft : middle.KeptBy left) : registry.KeptBy left :=
  fun name id hid => hleft name id (h name id hid)

theorem keptBy_add {registry : Registry kind} {name : String} (hnew : registry.idOf? name = none) :
    registry.KeptBy (registry.add name) := by
  intro other id hid
  have hne : other ≠ name := by
    rintro rfl
    simp [hnew] at hid
  rw [idOf?_add, if_neg hne, hid]

end Registry

def Catalog.names (catalog : Catalog) : Kind → List String
  | .file => []
  | .tag => catalog.tags.names
  | .value => catalog.values.names

namespace Operation

/-- The name that an operation asks for. The empty name is never given. -/
def nameOf? : Kind → Operation → Option String
  | .tag, .createTag name => if name = "" then none else some name
  | .value, .createValue name => if name = "" then none else some name
  | _, _ => none

/-- Of each kind, fewer distinct names are asked for than there are numbers. -/
def FewNames (operations : List Operation) : Prop :=
  ∀ kind, (operations.filterMap (nameOf? kind)).eraseDups.length < UInt32.size

theorem FewNames.of_append {earlier later : List Operation} (h : FewNames (earlier ++ later)) :
    FewNames earlier := by
  intro kind
  have hkind := h kind
  rw [List.filterMap_append, List.eraseDups_append, List.length_append] at hkind
  omega

end Operation

namespace Store

theorem catalog_insertFacts (facts : List Fact) (store : Store) :
    ((insertFacts facts).run store).2.catalog = store.catalog := by
  induction facts generalizing store with
  | nil => rfl
  | cons fact rest ih =>
      rw [insertFacts, run_bind]
      rcases run_insertFact_cases fact store with ⟨-, hrun⟩ | ⟨-, fault, hrun⟩
      · rw [hrun]
        simp only [run_bind]
        have hrest := ih { store with facts := store.facts.insert fact }
        generalize (insertFacts rest).run { store with facts := store.facts.insert fact } = outcome
          at hrest
        obtain ⟨_ | others, left⟩ := outcome <;> exact hrest
      · rw [hrun]

end Store

namespace Operation

theorem catalog_apply {operation : Operation} (htag : ∀ name, operation ≠ .createTag name)
    (hvalue : ∀ name, operation ≠ .createValue name) (store : Store) :
    (apply store operation).catalog = store.catalog := by
  cases operation with
  | createTag name => exact absurd rfl (htag name)
  | createValue name => exact absurd rfl (hvalue name)
  | addRule rule =>
      rcases Store.run_addRule_cases rule store with ⟨-, -, hrun⟩ | ⟨-, fault, hrun⟩ <;>
        rw [apply, hrun]
  | removeRule rule => rfl
  | insertFact fact =>
      rcases Store.run_insertFact_cases fact store with ⟨-, hrun⟩ | ⟨-, fault, hrun⟩ <;>
        rw [apply, hrun]
  | deleteFacts filter => rfl
  | deleteFact fact => rw [apply, Store.run_deleteFact]
  | copyFacts source dest =>
      rw [apply, Store.run_copyFacts]
      exact Store.catalog_insertFacts _ store

theorem mem_names_apply {operation : Operation} {store : Store} {kind : Kind} {name : String}
    (h : name ∈ (apply store operation).catalog.names kind) :
    name ∈ store.catalog.names kind ∨ operation.nameOf? kind = some name := by
  cases operation with
  | createTag created =>
      rw [apply, Store.createTag] at h
      rcases Store.store_create_cases .tags created store with hrun | ⟨hcreated, -, hrun⟩
      · exact .inl (hrun ▸ h)
      · rw [hrun] at h
        cases kind with
        | tag =>
            rcases List.mem_cons.mp h with rfl | h
            · exact .inr (if_neg hcreated)
            · exact .inl h
        | _ => exact .inl h
  | createValue created =>
      rw [apply, Store.createValue] at h
      rcases Store.store_create_cases .values created store with hrun | ⟨hcreated, -, hrun⟩
      · exact .inl (hrun ▸ h)
      · rw [hrun] at h
        cases kind with
        | value =>
            rcases List.mem_cons.mp h with rfl | h
            · exact .inr (if_neg hcreated)
            · exact .inl h
        | _ => exact .inl h
  | _ =>
      rw [catalog_apply (by simp) (by simp)] at h
      exact .inl h

end Operation

namespace Store

open Operation (FewNames)

theorem mem_names_after {store : Store} {operations : List Operation} {kind : Kind} {name : String}
    (h : name ∈ (store.after operations).catalog.names kind) :
    name ∈ store.catalog.names kind ∨ name ∈ operations.filterMap (Operation.nameOf? kind) := by
  induction operations generalizing store with
  | nil => exact .inl h
  | cons operation rest ih =>
      rw [List.mem_filterMap]
      rcases ih h with h | h
      · rcases Operation.mem_names_apply h with h | h
        · exact .inl h
        · exact .inr ⟨operation, by simp, h⟩
      · obtain ⟨other, hother, hname⟩ := List.mem_filterMap.mp h
        exact .inr ⟨other, List.mem_cons_of_mem _ hother, hname⟩

theorem Step.nodup_names {store left : Store} (hstep : Step store left) {kind : Kind}
    (h : (store.catalog.names kind).Nodup) : (left.catalog.names kind).Nodup := by
  cases hstep with
  | addTag hname hnew =>
      cases kind with
      | tag => exact List.nodup_cons.mpr ⟨Registry.idOf?_eq_none_iff.mp hnew, h⟩
      | _ => exact h
  | addValue hname hnew =>
      cases kind with
      | value => exact List.nodup_cons.mpr ⟨Registry.idOf?_eq_none_iff.mp hnew, h⟩
      | _ => exact h
  | _ => exact h

theorem Steps.nodup_names {store left : Store} (hsteps : Steps store left) {kind : Kind}
    (h : (store.catalog.names kind).Nodup) : (left.catalog.names kind).Nodup :=
  hsteps.keep (motive := fun store => (store.catalog.names kind).Nodup)
    (fun _ _ hstep => hstep.nodup_names) h

def HasRoom (store : Store) : Prop := ∀ kind, (store.catalog.names kind).length < UInt32.size

theorem hasRoom_after {operations : List Operation} (h : FewNames operations) :
    (empty.after operations).HasRoom := by
  intro kind
  have hempty : empty.catalog.names kind = [] := by cases kind <;> rfl
  have hnodup : ((empty.after operations).catalog.names kind).Nodup :=
    (steps_after empty operations).nodup_names (by simp [hempty])
  have hsub : (empty.after operations).catalog.names kind ⊆
      (operations.filterMap (Operation.nameOf? kind)).eraseDups := by
    intro name hname
    have hasked := mem_names_after hname
    rw [hempty] at hasked
    simpa using hasked
  calc
    _ ≤ (operations.filterMap (Operation.nameOf? kind)).eraseDups.length :=
      (List.subperm_of_subset hnodup hsub).length_le
    _ < UInt32.size := h kind

theorem Step.length_names_le {store left : Store} (hstep : Step store left) (kind : Kind) :
    (store.catalog.names kind).length ≤ (left.catalog.names kind).length := by
  cases hstep with
  | addTag =>
      cases kind with
      | tag => exact Nat.le_succ _
      | _ => exact Nat.le_refl _
  | addValue =>
      cases kind with
      | value => exact Nat.le_succ _
      | _ => exact Nat.le_refl _
  | _ => exact Nat.le_refl _

theorem Step.hasRoom {store left : Store} (hstep : Step store left) (h : left.HasRoom) :
    store.HasRoom :=
  fun kind => Nat.lt_of_le_of_lt (hstep.length_names_le kind) (h kind)

/-- The tables of names are sound, and the facts and the rules speak of what is in them. -/
structure Sound (store : Store) : Prop extends store.Grounded where
  tags : store.catalog.tags.Sound
  values : store.catalog.values.Sound

theorem sound_empty : empty.Sound := ⟨grounded_empty, Registry.sound_empty, Registry.sound_empty⟩

theorem Sound.step {store left : Store} (h : store.Sound) (hstep : Step store left)
    (hroom : left.HasRoom) : left.Sound := by
  refine ⟨h.toGrounded.step hstep, ?_, ?_⟩
  · cases hstep with
    | addTag hname hnew =>
        have htags := hroom .tag
        exact h.tags.add (by simpa [Catalog.names, Registry.names] using htags) hname hnew
    | _ => exact h.tags
  · cases hstep with
    | addValue hname hnew =>
        have hvalues := hroom .value
        exact h.values.add (by simpa [Catalog.names, Registry.names] using hvalues) hname hnew
    | _ => exact h.values

theorem Sound.steps {store left : Store} (h : store.Sound) (hsteps : Steps store left)
    (hroom : left.HasRoom) : left.Sound := by
  induction hsteps with
  | refl => exact h
  | tail _ hstep ih => exact (ih (hstep.hasRoom hroom)).step hstep hroom

theorem sound_after {operations : List Operation} (h : FewNames operations) :
    (empty.after operations).Sound :=
  sound_empty.steps (steps_after empty operations) (hasRoom_after h)

structure NamesKeptBy (store left : Store) : Prop where
  tags : store.catalog.tags.KeptBy left.catalog.tags
  values : store.catalog.values.KeptBy left.catalog.values

theorem Step.namesKeptBy {store left : Store} (hstep : Step store left) :
    store.NamesKeptBy left := by
  cases hstep with
  | addTag hname hnew => exact ⟨Registry.keptBy_add hnew, .refl _⟩
  | addValue hname hnew => exact ⟨.refl _, Registry.keptBy_add hnew⟩
  | _ => exact ⟨.refl _, .refl _⟩

theorem Steps.namesKeptBy {store left : Store} (hsteps : Steps store left) :
    store.NamesKeptBy left := by
  induction hsteps with
  | refl => exact ⟨.refl _, .refl _⟩
  | tail _ hstep ih =>
      exact ⟨ih.tags.trans hstep.namesKeptBy.tags, ih.values.trans hstep.namesKeptBy.values⟩

theorem run_create_of_sound {kind : Kind} (part : Catalog.Part kind) {store : Store}
    (h : (part.registry store.catalog).Sound) (name : String) :
    (name = "" ∧ ((create part name).run store).1 = .error (.input part.emptyName)) ∨
      name ≠ "" ∧ ∃ id, ((create part name).run store).1 = .ok ⟨id, name⟩ := by
  rw [run_create]
  split
  · rename_i hname
    exact .inl ⟨hname, rfl⟩
  · rename_i hname
    refine .inr ⟨hname, ?_⟩
    cases hid : (part.registry store.catalog).idOf? name with
    | none => exact ⟨_, rfl⟩
    | some id => exact ⟨id, by simp [(h.idOf?_eq_some_iff name id).mp hid]⟩

theorem run_create_ne_storage {kind : Kind} (part : Catalog.Part kind) {store : Store}
    (h : (part.registry store.catalog).Sound) (name : String) (fault : StorageFault) :
    ((create part name).run store).1 ≠ .error (.storage fault) := by
  rcases run_create_of_sound part h name with ⟨-, hrun⟩ | ⟨-, id, hrun⟩ <;> simp [hrun]

theorem steps_append (earlier later : List Operation) :
    Steps (empty.after earlier) (empty.after (earlier ++ later)) := by
  rw [after, after, List.foldl_append]
  exact steps_after _ later

/-- At every point of a history that asks for fewer names than there are numbers, the tables of
names are inverse to each other, the facts and the rules speak of known names only, and creation
does not find the tables out of step. From then on the names keep their numbers. -/
theorem sound_throughout {earlier later : List Operation} (h : FewNames (earlier ++ later)) :
    let store := empty.after earlier
    let left := empty.after (earlier ++ later)
    store.Sound ∧
      (∀ name fault, ((createTag name).run store).1 ≠ .error (.storage fault) ∧
        ((createValue name).run store).1 ≠ .error (.storage fault)) ∧
      (∀ name id, store.catalog.tags.idOf? name = some id →
        left.catalog.tags.idOf? name = some id ∧ left.catalog.tags.get? id = some ⟨id, name⟩) ∧
      ∀ name id, store.catalog.values.idOf? name = some id →
        left.catalog.values.idOf? name = some id ∧
          left.catalog.values.get? id = some ⟨id, name⟩ := by
  intro store left
  have hstore : store.Sound := sound_after h.of_append
  have hleft : left.Sound := sound_after h
  have hsteps : Steps store left := steps_append earlier later
  refine ⟨hstore, ?_, ?_, ?_⟩
  · intro name fault
    exact ⟨run_create_ne_storage .tags hstore.tags name fault,
      run_create_ne_storage .values hstore.values name fault⟩
  · intro name id hid
    have hkept := hsteps.namesKeptBy.tags name id hid
    exact ⟨hkept, (hleft.tags.idOf?_eq_some_iff name id).mp hkept⟩
  · intro name id hid
    have hkept := hsteps.namesKeptBy.values name id hid
    exact ⟨hkept, (hleft.values.idOf?_eq_some_iff name id).mp hkept⟩

theorem sound_throughout_os :
    let earlier : List Operation := [.createTag "os", .createTag "", .createValue "linux",
      .insertFact ⟨⟨7⟩, ⟨1⟩, some ⟨1⟩⟩, .insertFact ⟨⟨7⟩, ⟨9⟩, none⟩]
    let later : List Operation := [.createTag "kernel", .createTag "os", .copyFacts ⟨1⟩ ⟨2⟩,
      .addRule ⟨.exact ⟨1⟩ ⟨1⟩, .any ⟨2⟩⟩, .deleteFacts (.ofTag ⟨1⟩)]
    FewNames (earlier ++ later) ∧ (empty.after earlier).Sound ∧
      (empty.after earlier).catalog.tags.idOf? "os" = some ⟨1⟩ ∧
      (empty.after (earlier ++ later)).catalog.tags.get? ⟨1⟩ = some ⟨⟨1⟩, "os"⟩ := by
  intro earlier later
  have hfew : FewNames (earlier ++ later) := by
    intro kind
    cases kind <;> decide +kernel
  have hid : (empty.after earlier).catalog.tags.idOf? "os" = some ⟨1⟩ := by decide +kernel
  obtain ⟨hsound, -, htags, -⟩ := sound_throughout hfew
  exact ⟨hfew, hsound, hid, (htags "os" ⟨1⟩ hid).2⟩

end Store

end TagBase
