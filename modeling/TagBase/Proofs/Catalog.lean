import Mathlib.Data.List.Nodup
import TagBase.Catalog
import TagBase.Rule.Basic

namespace TagBase

namespace Registry

variable {kind : Kind}

theorem nodup_ids (registry : Registry kind) : (registry.records.map Named.id).Nodup := by
  rw [List.Nodup, List.pairwise_map]
  refine registry.ascending.imp ?_
  intro a b hlt heq
  simp [heq] at hlt

theorem id_injective {registry : Registry kind} {a b : Named kind} (ha : a ∈ registry.records)
    (hb : b ∈ registry.records) (h : a.id = b.id) : a = b :=
  List.inj_on_of_nodup_map registry.nodup_ids ha hb h

theorem get?_eq_some_iff {registry : Registry kind} {id : Ident kind} {record : Named kind} :
    registry.get? id = some record ↔ record ∈ registry.records ∧ record.id = id := by
  constructor
  · intro h
    exact ⟨List.mem_of_find?_eq_some h, by simpa using List.find?_some h⟩
  · rintro ⟨hrecord, rfl⟩
    rw [get?]
    cases hfind : registry.records.find? fun other => other.id == record.id with
    | none => simpa using List.find?_eq_none.mp hfind record hrecord
    | some other =>
        have hid : other.id = record.id := by simpa using List.find?_some hfind
        rw [id_injective (List.mem_of_find?_eq_some hfind) hrecord hid]

theorem find?_placeBy_id (record : Named kind) (id : Ident kind) (records : List (Named kind)) :
    (placeBy Named.id record records).find? (fun other => other.id == id) =
      if record.id = id then some record else records.find? fun other => other.id == id := by
  induction records with
  | nil => by_cases h : record.id = id <;> simp [placeBy, h]
  | cons first rest ih =>
      rw [placeBy]
      split
      · by_cases h : record.id = id <;> simp [h]
      · rename_i heq
        have heq := Std.LawfulEqOrd.compare_eq_iff_eq.mp heq
        by_cases h : record.id = id <;> simp [h, ← heq]
      · rename_i hgt
        have hne : record.id ≠ first.id := by
          intro heq
          simp [heq] at hgt
        by_cases h : first.id = id
        · simp [h, show record.id ≠ id from h ▸ hne]
        · simp [h, ih]

theorem get?_add (registry : Registry kind) (name : String) (id : Ident kind) :
    (registry.add name).get? id =
      if (registry.next name).id = id then some (registry.next name) else registry.get? id :=
  find?_placeBy_id (registry.next name) id registry.records

theorem idOf?_add (registry : Registry kind) (name other : String) :
    (registry.add name).idOf? other =
      if other = name then some (registry.next name).id else registry.idOf? other := by
  rw [idOf?, add, List.lookup_cons]
  by_cases h : other = name
  · simp [h]
  · simp [h, beq_eq_false_iff_ne.mpr h, idOf?]

theorem contains_add {registry : Registry kind} {id : Ident kind} (h : registry.contains id = true)
    (name : String) : (registry.add name).contains id = true := by
  rw [contains, get?_add]
  split
  · rfl
  · exact h

theorem get?_of_find? {registry : Registry kind} {name : String} {record : Named kind}
    (h : registry.find? name = some record) : registry.get? record.id = some record := by
  obtain ⟨id, -, hget⟩ := Option.bind_eq_some_iff.mp h
  rw [get?_eq_some_iff.mp hget |>.2, hget]

/-- The tables of a registry are inverse to each other, no name in them is empty, and there are as
many names as numbers have been given out. -/
structure Sound (registry : Registry kind) : Prop where
  idOf?_eq_some_iff : ∀ name id,
    registry.idOf? name = some id ↔ registry.get? id = some ⟨id, name⟩
  name_ne_empty : ∀ name id, registry.idOf? name = some id → name ≠ ""
  num_le_last : ∀ id, registry.contains id = true → id.num ≤ registry.last
  last_eq : registry.last.toNat = registry.idOfName.length

theorem sound_empty : (empty : Registry kind).Sound := by
  constructor
  · intro name id
    simp [empty, idOf?, get?]
  · intro name id h
    simp [empty, idOf?] at h
  · intro id h
    simp [empty, contains, get?] at h
  · rfl

section Adding

variable {registry : Registry kind} (h : registry.Sound) {name : String}
  (hroom : (registry.add name).idOfName.length < UInt32.size)

include h hroom

theorem Sound.toNat_last_add : (registry.add name).last.toNat = registry.last.toNat + 1 := by
  have hlast := h.last_eq
  have hlength : registry.idOfName.length + 1 < UInt32.size := hroom
  change (registry.last + 1).toNat = _
  rw [UInt32.toNat_add, hlast]
  exact Nat.mod_eq_of_lt hlength

theorem Sound.get?_next : registry.get? (registry.next name).id = none := by
  rw [← Option.not_isSome_iff_eq_none]
  intro hcontains
  have hle := UInt32.le_iff_toNat_le.mp (h.num_le_last _ hcontains)
  have hlast : (registry.next name).id.num.toNat = registry.last.toNat + 1 := h.toNat_last_add hroom
  omega

theorem Sound.add (hname : name ≠ "") (hnew : registry.idOf? name = none) :
    (registry.add name).Sound := by
  have hfresh := h.get?_next hroom
  constructor
  · intro other id
    rw [idOf?_add, get?_add]
    have hiff := h.idOf?_eq_some_iff other id
    by_cases hother : other = name
    · subst hother
      by_cases hid : (registry.next other).id = id
      · subst hid
        simp [next]
      · simpa [hid, hnew] using hiff
    · by_cases hid : (registry.next name).id = id
      · subst hid
        rw [hfresh] at hiff
        simp only [hother, if_false, if_true, hiff]
        simp [next, Ne.symm hother]
      · simpa [hother, hid] using hiff
  · intro other id hother
    rw [idOf?_add] at hother
    split at hother
    · rename_i heq
      exact heq ▸ hname
    · exact h.name_ne_empty other id hother
  · intro id hid
    rw [contains, get?_add] at hid
    rw [UInt32.le_iff_toNat_le, h.toNat_last_add hroom]
    split at hid
    · rename_i heq
      subst heq
      exact Nat.le_of_eq (h.toNat_last_add hroom)
    · exact Nat.le_succ_of_le (UInt32.le_iff_toNat_le.mp (h.num_le_last id hid))
  · rw [h.toNat_last_add hroom, h.last_eq]
    rfl

end Adding

theorem Sound.id_eq_of_name_eq {registry : Registry kind} (h : registry.Sound) {i j : Ident kind}
    {a b : Named kind} (ha : registry.get? i = some a) (hb : registry.get? j = some b)
    (hname : a.name = b.name) : i = j := by
  obtain ⟨-, rfl⟩ := get?_eq_some_iff.mp ha
  obtain ⟨-, rfl⟩ := get?_eq_some_iff.mp hb
  have hi := (h.idOf?_eq_some_iff a.name a.id).mpr ha
  have hj := (h.idOf?_eq_some_iff b.name b.id).mpr hb
  rw [hname, hj] at hi
  exact (Option.some.inj hi).symm

theorem Sound.find?_eq_some_iff {registry : Registry kind} (h : registry.Sound) {name : String}
    {record : Named kind} :
    registry.find? name = some record ↔ record ∈ registry.records ∧ record.name = name := by
  have hrecord : record ∈ registry.records ↔ registry.get? record.id = some record := by
    simp [get?_eq_some_iff]
  rw [find?, Option.bind_eq_some_iff, hrecord]
  simp only [h.idOf?_eq_some_iff]
  constructor
  · rintro ⟨id, hid, hget⟩
    obtain rfl := Option.some.inj (hid.symm.trans hget)
    exact ⟨hget, rfl⟩
  · rintro ⟨hget, rfl⟩
    exact ⟨record.id, hget, hget⟩

theorem Sound.name_ne_empty_of_get? {registry : Registry kind} (h : registry.Sound)
    {id : Ident kind} {record : Named kind} (hget : registry.get? id = some record) :
    record.name ≠ "" := by
  obtain ⟨-, rfl⟩ := get?_eq_some_iff.mp hget
  exact h.name_ne_empty _ _ ((h.idOf?_eq_some_iff record.name record.id).mpr hget)

end Registry

/-- The catalog has the tag of a pair, and its value if the pair means a single one. -/
def Catalog.Knows (catalog : Catalog) (pair : Pair) : Prop :=
  catalog.tags.contains pair.tag = true ∧
    ∀ value, pair.selector.value? = some value → catalog.values.contains value = true

end TagBase
