import TagBase.Proofs.Json.Laws

namespace TagBase.Json

/-- Data of a shape may be written as `null` where this does not tell them from missing data. -/
def Shape.mayBeNull : Shape → Bool
  | .optional _ => true
  | .wrapped inner => inner.mayBeNull
  | _ => false

/-- Data are of a shape, and their document tells what they are. -/
inductive Fits : Shape → Data → Prop
  | bool (value : Bool) : Fits .bool (.bool value)
  | word32 (n : UInt32) : Fits .word32 (.word32 n)
  | word64 (n : UInt64) : Fits .word64 (.word64 n)
  | text (content : String) : Fits .text (.text content)
  | absent (inner : Shape) : Fits (.optional inner) .absent
  | present {inner : Shape} {value : Data} (hnull : inner.mayBeNull = false)
      (h : Fits inner value) : Fits (.optional inner) (.present value)
  | wrapped {inner : Shape} {value : Data} (h : Fits inner value) :
      Fits (.wrapped inner) (.wrapped value)
  | record {fields : List (Field Shape)} {values : List (String × Data)}
      (hnodup : (fields.map Field.name).Nodup)
      (hnames : values.map Prod.fst = fields.map Field.name)
      (h : ∀ field ∈ fields, ∀ value, (field.name, value) ∈ values → Fits field.shape value) :
      Fits (.record fields) (.record values)
  | alone {alone : List String} {carrying : List (String × Shape)} {name : String}
      (hnodup : (alone ++ carrying.map Prod.fst).Nodup) (hname : name ∈ alone) :
      Fits (.choice alone carrying) (.alone name)
  | carrying {alone : List String} {carrying : List (String × Shape)} {name : String}
      {inner : Shape} {value : Data} (hnodup : (alone ++ carrying.map Prod.fst).Nodup)
      (hname : (name, inner) ∈ carrying) (h : Fits inner value) :
      Fits (.choice alone carrying) (.carrying name value)

theorem depth_le_fieldsDepth {fields : List (Field Shape)} {field : Field Shape}
    (h : field ∈ fields) : field.shape.depth ≤ fieldsDepth fields := by
  induction fields with
  | nil => exact absurd h List.not_mem_nil
  | cons first rest ih =>
      obtain ⟨name, shape, default?⟩ := first
      rw [fieldsDepth]
      rcases List.mem_cons.mp h with rfl | h
      · exact Nat.le_max_left _ _
      · exact Nat.le_trans (ih h) (Nat.le_max_right _ _)

theorem depth_le_carryingDepth {carrying : List (String × Shape)} {name : String} {inner : Shape}
    (h : (name, inner) ∈ carrying) : inner.depth ≤ carryingDepth carrying := by
  induction carrying with
  | nil => exact absurd h List.not_mem_nil
  | cons first rest ih =>
      obtain ⟨other, shape⟩ := first
      rw [carryingDepth]
      rcases List.mem_cons.mp h with h | h
      · obtain ⟨rfl, rfl⟩ := Prod.mk.inj h
        exact Nat.le_max_left _ _
      · exact Nat.le_trans (ih h) (Nat.le_max_right _ _)

theorem valuesUnder_of_nodup {fields : List (String × Json)} (hnodup : (fields.map Prod.fst).Nodup)
    {name : String} {json : Json} (h : (name, json) ∈ fields) :
    valuesUnder name fields = [json] := by
  induction fields with
  | nil => exact absurd h List.not_mem_nil
  | cons field fields ih =>
      obtain ⟨hfield, hnodup⟩ := List.nodup_cons.mp hnodup
      rcases List.mem_cons.mp h with rfl | h
      · have hnone : fields.filter (fun field => field.1 = name) = [] := by
          rw [List.filter_eq_nil_iff]
          intro other hother hname
          have hmem : other.1 ∈ fields.map Prod.fst := List.mem_map_of_mem hother
          exact hfield (of_decide_eq_true hname ▸ hmem)
        simp [valuesUnder, hnone]
      · have hne : field.1 ≠ name := by
          rintro rfl
          have hmem : (field.1, json).1 ∈ fields.map Prod.fst := List.mem_map_of_mem h
          exact hfield hmem
        simpa [valuesUnder, hne] using ih hnodup h

namespace Fits

variable {library : Library} {shape : Shape} {value : Data}

theorem encode_ne_null (hwrites : library.Writes) (h : Fits shape value)
    (hnull : shape.mayBeNull = false) : library.encode value ≠ .null := by
  induction h with
  | bool value => simp [hwrites.bool]
  | word32 n => simp [hwrites.word32]
  | word64 n => simp [hwrites.word64]
  | text content => simp [hwrites.text]
  | absent inner => cases hnull
  | present _ _ _ => cases hnull
  | wrapped _ ih =>
      rw [hwrites.wrapped]
      exact ih hnull
  | record _ _ _ _ => simp [hwrites.record, Json.record]
  | alone _ _ => simp [hwrites.alone]
  | carrying _ _ _ _ => simp [hwrites.carrying, Json.record]

theorem plain_encode (hwrites : library.Writes) (h : Fits shape value) :
    Plain (library.encode value) := by
  induction h with
  | bool value => exact hwrites.bool value ▸ .bool value
  | word32 n => exact hwrites.word32 n ▸ .natural _
  | word64 n => exact hwrites.word64 n ▸ .natural _
  | text content => exact hwrites.text content ▸ .text content
  | absent inner => exact hwrites.absent ▸ .null
  | present _ _ ih =>
      rw [hwrites.present]
      exact ih
  | wrapped _ ih =>
      rw [hwrites.wrapped]
      exact ih
  | @record fields values _ hnames _ ih =>
      rw [hwrites.record]
      refine .record _ fun member hmember => ?_
      obtain ⟨⟨name, value⟩, hvalue, rfl⟩ := List.mem_map.mp hmember
      have hname : name ∈ fields.map Field.name := hnames ▸ List.mem_map_of_mem hvalue
      obtain ⟨field, hfield, rfl⟩ := List.mem_map.mp hname
      exact ih field hfield value hvalue
  | alone _ _ => exact hwrites.alone _ ▸ .text _
  | @carrying alone carrying name inner value _ _ _ ih =>
      rw [hwrites.carrying]
      refine .record _ fun member hmember => ?_
      rw [List.mem_singleton.mp hmember]
      exact ih

/-- What is encoded of data is decoded as these data. -/
theorem decode?_encode (hwrites : library.Writes) (hreads : library.Reads) (h : Fits shape value)
    (hdepth : shape.depth < depthLimit) :
    library.decode? shape (library.encode value) = some value := by
  induction h with
  | bool value => rw [hwrites.bool, hreads.bool]
  | word32 n => rw [hwrites.word32, hreads.word32]
  | word64 n => rw [hwrites.word64, hreads.word64]
  | text content => rw [hwrites.text, hreads.text]
  | absent inner => rw [hwrites.absent, hreads.absent]
  | present hnull h ih =>
      rw [hwrites.present]
      exact hreads.present _ _ _ (h.encode_ne_null hwrites hnull) (ih hdepth)
  | wrapped _ ih =>
      rw [hwrites.wrapped]
      exact hreads.wrapped _ _ _ (ih hdepth)
  | @record fields values hnodup hnames _ ih =>
      rw [hwrites.record]
      refine hreads.record _ _ _ hdepth hnodup hnames fun field hfield value hvalue => .inl ?_
      have hmembers : ((values.map fun field => (field.1, library.encode field.2)).map
          Prod.fst).Nodup := by
        rw [List.map_map]
        exact hnames ▸ hnodup
      refine ⟨library.encode value, valuesUnder_of_nodup hmembers ?_, ?_⟩
      · exact List.mem_map.mpr ⟨_, hvalue, rfl⟩
      · exact ih field hfield value hvalue
          (Nat.lt_of_le_of_lt (depth_le_fieldsDepth hfield) (Nat.lt_of_succ_lt hdepth))
  | alone hnodup hname =>
      rw [hwrites.alone]
      exact hreads.alone _ _ _ hnodup hname
  | carrying hnodup hname _ ih =>
      rw [hwrites.carrying]
      refine hreads.carrying _ _ _ _ _ _ hdepth hnodup hname (ih ?_)
      exact Nat.lt_of_le_of_lt (depth_le_carryingDepth hname) (Nat.lt_of_succ_lt hdepth)

end Fits

end TagBase.Json
