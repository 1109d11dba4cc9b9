import TagBase.Proofs.Json.RoundTrip

namespace TagBase.Settings

open Json (Library Shaped valuesUnder)
open Json.Shaped (shape toData)

/-- What a document says of the settings: a value for each, or nothing. -/
structure Listed where
  listImplied : Option Bool
  prefilter : Option Bool
  parallelThreshold : Option UInt64

def Listed.settings (listed : Listed) : Settings where
  listImplied := listed.listImplied.getD default.listImplied
  prefilter := listed.prefilter.getD default.prefilter
  parallelThreshold := listed.parallelThreshold.getD default.parallelThreshold

/-- Under the name of each setting, the fields of an object give the one value that is listed, or
none. The order of the fields does not count, nor do fields with other names. -/
structure Lists (fields : List (String × Json)) (listed : Listed) : Prop where
  listImplied :
    valuesUnder "include_implied_pairs" fields = (listed.listImplied.map Json.bool).toList
  prefilter :
    valuesUnder "prefilter_candidates" fields = (listed.prefilter.map Json.bool).toList
  parallelThreshold :
    valuesUnder "parallel_threshold" fields =
      (listed.parallelThreshold.map fun n => Json.natural n.toNat).toList

variable {library : Library} {fields : List (String × Json)}

theorem gives_listed {α : Type} [Shaped α] (default : α) {name : String} {listed : Option α}
    {json : α → Json}
    (hdecode : ∀ value, library.decode? (shape α) (json value) = some (toData value))
    (h : valuesUnder name fields = (listed.map json).toList) :
    library.Gives fields ⟨name, shape α, some (toData default)⟩
      (toData (listed.getD default)) := by
  cases listed with
  | none => exact .inr ⟨h, rfl⟩
  | some value => exact .inl ⟨json value, h, hdecode value⟩

theorem Lists.read? (hreads : library.Reads) {text : String} {listed : Listed}
    (h : Lists fields listed) (htext : library.parse? text = some (.record fields)) :
    library.read? text = some listed.settings := by
  have hdecode : library.decode? (shape Settings) (.record fields) =
      some (toData listed.settings) := by
    have himplied := gives_listed default.listImplied hreads.bool h.listImplied
    have hprefilter := gives_listed default.prefilter hreads.bool h.prefilter
    have hthreshold := gives_listed default.parallelThreshold hreads.word64 h.parallelThreshold
    refine hreads.record _ fields _ (by decide) (by decide) rfl ?_
    simpa using ⟨himplied, hprefilter, hthreshold⟩
  rw [Library.read?, htext, Option.bind_eq_bind, Option.bind_some, hdecode]
  exact Shaped.Lawful.ofData?_toData listed.settings

/-- A document that lists settings holds these and the defaults of the others, unless its threshold
is zero, which is refused. From any text come settings with a positive threshold, or a fault of the
document. -/
theorem ofText_eq_listed (hreads : library.Reads) (path : Option String) :
    (∀ text fields listed, library.parse? text = some (.record fields) → Lists fields listed →
      ofText library text path =
        if listed.settings.parallelThreshold = 0 then .error (.settings path .zeroThreshold)
        else .ok listed.settings) ∧
    ∀ text,
      (∃ settings, ofText library text path = .ok settings ∧
        1 ≤ settings.parallelThreshold.toNat) ∨
      ∃ fault, ofText library text path = .error (.settings path fault) := by
  constructor
  · intro text fields listed htext hlists
    rw [ofText, hlists.read? hreads htext]
  · intro text
    rw [ofText]
    split
    · exact .inr ⟨_, rfl⟩
    · rename_i settings _
      split
      · exact .inr ⟨_, rfl⟩
      · rename_i hzero
        refine .inl ⟨settings, rfl, Nat.one_le_iff_ne_zero.mpr fun h => hzero ?_⟩
        exact UInt64.toNat_inj.mp h

theorem ofText_eq_listed_note :
    let library := Json.Reference.library
    let text := "\x7b\"note\":\x7b\"x\":null\x7d,\"parallel_threshold\":8\x7d"
    let fields := [("note", .record [("x", .null)]), ("parallel_threshold", .natural 8)]
    library.Reads ∧ library.parse? text = some (.record fields) ∧
      Lists fields ⟨none, none, some 8⟩ ∧ ofText library text none = .ok ⟨false, true, 8⟩ := by
  intro library text fields
  have hplain : Json.Plain (.record fields) := by
    refine .record _ ?_
    simpa [fields] using ⟨.record _ (by simpa using .null), .natural 8⟩
  have hprint : Json.Reference.print (.record [("note", .record [("x", .null)]),
      ("parallel_threshold", .natural 8)]) =
      "\x7b\"note\":\x7b\"x\":null\x7d,\"parallel_threshold\":8\x7d" := by decide +kernel
  have htext : library.parse? text = some (.record fields) := by
    have hback := Json.Reference.library_readsBack _ hplain
    rwa [show library.print (.record fields) = text from hprint] at hback
  have hlists : Lists fields ⟨none, none, some 8⟩ := ⟨rfl, rfl, rfl⟩
  obtain ⟨hlisted, -⟩ := ofText_eq_listed Json.Reference.library_reads none
  have hsettings := hlisted text fields ⟨none, none, some 8⟩ htext hlists
  rw [if_neg (by decide)] at hsettings
  exact ⟨Json.Reference.library_reads, htext, hlists, hsettings⟩

end TagBase.Settings
