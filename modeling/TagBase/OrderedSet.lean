/-!
Finite sets held as strictly ascending lists. A set is determined by its members (`ext_mem`), so
equality of sets is equality of lists, and the list is the order in which members are shown.
-/

namespace TagBase

/-- Puts an element at its place in a list that ascends by keys, instead of the one with its key. -/
def placeBy {α κ : Type} [Ord κ] (key : α → κ) (a : α) : List α → List α
  | [] => [a]
  | b :: rest =>
      match compare (key a) (key b) with
      | .lt => a :: b :: rest
      | .eq => a :: rest
      | .gt => b :: placeBy key a rest

/-- A finite set, held as the strictly ascending list of its members. -/
structure OrderedSet (α : Type) [Ord α] where
  toList : List α
  ascending : toList.Pairwise fun a b => compare a b = .lt
deriving DecidableEq

section Placing

variable {α κ : Type} [Ord κ] {key : α → κ} {a : α} {l : List α}

theorem eq_or_mem_of_mem_placeBy {x : α} (h : x ∈ placeBy key a l) : x = a ∨ x ∈ l := by
  induction l with
  | nil => simpa [placeBy] using h
  | cons b rest ih =>
      rw [placeBy] at h
      split at h
      · simpa using h
      · rcases List.mem_cons.mp h with rfl | h <;> simp [*]
      · rcases List.mem_cons.mp h with rfl | h
        · simp
        · rcases ih h with rfl | h <;> simp [*]

theorem pairwise_placeBy [Std.TransOrd κ]
    (h : l.Pairwise fun a b => compare (key a) (key b) = .lt) :
    (placeBy key a l).Pairwise fun a b => compare (key a) (key b) = .lt := by
  induction l with
  | nil => simp [placeBy]
  | cons b rest ih =>
      obtain ⟨hb, hrest⟩ := List.pairwise_cons.mp h
      rw [placeBy]
      split
      · rename_i hlt
        refine List.pairwise_cons.mpr ⟨?_, h⟩
        intro x hx
        rcases List.mem_cons.mp hx with rfl | hx
        · exact hlt
        · exact Std.TransCmp.lt_trans hlt (hb x hx)
      · rename_i heq
        exact List.pairwise_cons.mpr ⟨fun x hx => Std.TransCmp.lt_of_eq_of_lt heq (hb x hx), hrest⟩
      · rename_i hgt
        refine List.pairwise_cons.mpr ⟨?_, ih hrest⟩
        intro x hx
        rcases eq_or_mem_of_mem_placeBy hx with rfl | hx
        · exact Std.OrientedCmp.lt_of_gt hgt
        · exact hb x hx

end Placing

section Ascending

variable {α : Type} [Ord α]

def placeAscending (a : α) (l : List α) : List α := placeBy (fun b => b) a l

theorem mem_placeAscending [Std.LawfulEqOrd α] {a x : α} {l : List α} :
    x ∈ placeAscending a l ↔ x = a ∨ x ∈ l := by
  refine ⟨eq_or_mem_of_mem_placeBy, ?_⟩
  rw [placeAscending]
  induction l with
  | nil => simp [placeBy]
  | cons b rest ih =>
      rw [placeBy]
      split
      · simp
      · rename_i hab
        have hab := Std.LawfulEqOrd.compare_eq_iff_eq.mp hab
        simp [hab]
      · simp only [List.mem_cons]
        rintro (rfl | rfl | h)
        · exact .inr (ih (.inl rfl))
        · exact .inl rfl
        · exact .inr (ih (.inr h))

variable [Std.TransOrd α]

theorem eq_of_pairwise_of_mem_iff {l m : List α}
    (hl : l.Pairwise fun a b => compare a b = .lt) (hm : m.Pairwise fun a b => compare a b = .lt)
    (h : ∀ a, a ∈ l ↔ a ∈ m) : l = m := by
  have irrefl : ∀ a : α, compare a a ≠ .lt := by simp
  induction l generalizing m with
  | nil => exact (List.eq_nil_iff_forall_not_mem.mpr fun a ha => by simpa using (h a).mpr ha).symm
  | cons a l ih =>
      cases m with
      | nil => exact absurd ((h a).mp (by simp)) (by simp)
      | cons b m =>
          obtain ⟨ha, hl⟩ := List.pairwise_cons.mp hl
          obtain ⟨hb, htail⟩ := List.pairwise_cons.mp hm
          have hab : a = b := by
            rcases List.mem_cons.mp ((h a).mp (by simp)) with hab | hab
            · exact hab
            · rcases List.mem_cons.mp ((h b).mpr (by simp)) with hba | hba
              · exact hba.symm
              · exact absurd (Std.TransCmp.lt_trans (ha b hba) (hb a hab)) (irrefl a)
          subst hab
          congr 1
          refine ih hl htail fun x => ?_
          have hx := h x
          simp only [List.mem_cons] at hx
          constructor
          · intro hxl
            rcases hx.mp (.inr hxl) with rfl | hxm
            · exact absurd (ha x hxl) (irrefl x)
            · exact hxm
          · intro hxm
            rcases hx.mpr (.inr hxm) with rfl | hxl
            · exact absurd (hb x hxm) (irrefl x)
            · exact hxl

end Ascending

namespace OrderedSet

variable {α : Type} [Ord α]

instance : Membership α (OrderedSet α) where
  mem s a := a ∈ s.toList

instance [DecidableEq α] (a : α) (s : OrderedSet α) : Decidable (a ∈ s) :=
  inferInstanceAs (Decidable (a ∈ s.toList))

def empty : OrderedSet α := ⟨[], .nil⟩

def size (s : OrderedSet α) : Nat := s.toList.length

def filter (s : OrderedSet α) (keep : α → Bool) : OrderedSet α :=
  ⟨s.toList.filter keep, s.ascending.filter keep⟩

def erase (s : OrderedSet α) (a : α) : OrderedSet α :=
  s.filter fun b => compare b a != .eq

variable [Std.TransOrd α]

/-- The set with one more element; a member changes nothing. -/
def insert (s : OrderedSet α) (a : α) : OrderedSet α :=
  ⟨placeAscending a s.toList, pairwise_placeBy s.ascending⟩

def insertAll (s : OrderedSet α) (l : List α) : OrderedSet α :=
  l.foldl insert s

def ofList (l : List α) : OrderedSet α := empty.insertAll l

omit [Std.TransOrd α] in
theorem mem_toList {a : α} {s : OrderedSet α} : a ∈ s.toList ↔ a ∈ s := .rfl

omit [Std.TransOrd α] in
@[simp] theorem not_mem_empty (a : α) : ¬ a ∈ (empty : OrderedSet α) := by
  simp [← mem_toList, empty]

omit [Std.TransOrd α] in
@[simp] theorem mem_filter {a : α} {s : OrderedSet α} {keep : α → Bool} :
    a ∈ s.filter keep ↔ a ∈ s ∧ keep a = true := by
  simp [← mem_toList, filter]

omit [Std.TransOrd α] in
@[simp] theorem mem_erase [Std.LawfulEqOrd α] {a b : α} {s : OrderedSet α} :
    b ∈ s.erase a ↔ b ∈ s ∧ b ≠ a := by
  simp [erase]

@[simp] theorem mem_insert [Std.LawfulEqOrd α] {a b : α} {s : OrderedSet α} :
    b ∈ s.insert a ↔ b = a ∨ b ∈ s :=
  mem_placeAscending

@[simp] theorem mem_insertAll [Std.LawfulEqOrd α] {a : α} {s : OrderedSet α} {l : List α} :
    a ∈ s.insertAll l ↔ a ∈ l ∨ a ∈ s := by
  induction l generalizing s with
  | nil => simp [insertAll]
  | cons b rest ih =>
      have h : s.insertAll (b :: rest) = (s.insert b).insertAll rest := rfl
      simp only [h, ih, mem_insert, List.mem_cons]
      constructor
      · rintro (h | h | h) <;> simp [h]
      · rintro ((h | h) | h) <;> simp [h]

@[simp] theorem mem_ofList [Std.LawfulEqOrd α] {a : α} {l : List α} :
    a ∈ ofList l ↔ a ∈ l := by
  simp [ofList]

theorem nodup_toList (s : OrderedSet α) : s.toList.Nodup := by
  refine s.ascending.imp ?_
  rintro a b hlt rfl
  simp at hlt

theorem ext_mem {s t : OrderedSet α} (h : ∀ a, a ∈ s ↔ a ∈ t) : s = t := by
  have hst : s.toList = t.toList := eq_of_pairwise_of_mem_iff s.ascending t.ascending h
  cases s
  cases t
  simpa using hst

end OrderedSet

end TagBase
