import Mathlib.Logic.Function.Basic
import TagBase.Json.Entity
import TagBase.Settings
import TagBase.Proofs.Json.Fitting
import TagBase.Proofs.Json.Reference

namespace TagBase

namespace Json

open Shaped (shape toData ofData?)

/-- A type whose values fit its shape and can be told from their data. -/
class Shaped.Lawful (α : Type) [Shaped α] : Prop where
  fits (value : α) : Fits (shape α) (toData value)
  ofData?_toData (value : α) : ofData? (toData value) = some value

open Shaped.Lawful (fits ofData?_toData)

attribute [simp] Shaped.Lawful.fits Shaped.Lawful.ofData?_toData

/-- What a library writes of a value is read as this value, so that different values are written in
different ways. -/
structure Library.RoundTrips (library : Library) (α : Type) [Shaped α] : Prop where
  read?_write (value : α) : library.read? (library.write value) = some value
  write_injective : Function.Injective (library.write : α → String)

theorem Library.roundTrips (library : Library) (hwrites : library.Writes) (hreads : library.Reads)
    (hback : library.ReadsBack) {α : Type} [Shaped α] [Shaped.Lawful α]
    (hdepth : (shape α).depth < depthLimit) : library.RoundTrips α := by
  have hread : ∀ value : α, library.read? (library.write value) = some value := by
    intro value
    have hfits := fits value
    rw [read?, write, hback _ (hfits.plain_encode hwrites), Option.bind_eq_bind, Option.bind_some,
      hfits.decode?_encode hwrites hreads hdepth, Option.bind_eq_bind, Option.bind_some,
      ofData?_toData]
  refine ⟨hread, fun first second h => Option.some.inj ?_⟩
  rw [← hread first, h, hread second]

theorem Shaped.Lawful.option {α : Type} [Shaped α] [Shaped.Lawful α]
    (hnull : (shape α).mayBeNull = false) : Shaped.Lawful (Option α) where
  fits
    | none => .absent _
    | some value => .present hnull (fits value)
  ofData?_toData
    | none => rfl
    | some value => congrArg (Option.map some) (ofData?_toData value)

instance : Shaped.Lawful Bool where
  fits value := .bool value
  ofData?_toData _ := rfl

instance : Shaped.Lawful UInt32 where
  fits n := .word32 n
  ofData?_toData _ := rfl

instance : Shaped.Lawful UInt64 where
  fits n := .word64 n
  ofData?_toData _ := rfl

instance : Shaped.Lawful String where
  fits content := .text content
  ofData?_toData _ := rfl

end Json

open Json Shaped Shaped.Lawful

variable {kind : Kind}

instance : Shaped.Lawful (Ident kind) where
  fits id := .wrapped (fits id.num)
  ofData?_toData id := congrArg (Option.map Ident.mk) (ofData?_toData id.num)

instance : Shaped.Lawful (Named kind) where
  fits entry := .record (by simp) rfl (by simp)
  ofData?_toData entry := by
    change (do return ⟨← ofData? (toData entry.id), ← ofData? (toData entry.name)⟩) = some entry
    simp

instance : Shaped.Lawful (Option (Ident kind)) := .option rfl

instance : Shaped.Lawful (Option (Named kind)) := .option rfl

instance : Shaped.Lawful Fact where
  fits fact := .record (by simp) rfl (by simp)
  ofData?_toData fact := by
    change (do return ⟨← ofData? (toData fact.file), ← ofData? (toData fact.tag),
      ← ofData? (toData fact.value)⟩) = some fact
    simp

instance : Shaped.Lawful Selector where
  fits
    | .any => .alone (by simp) (by simp)
    | .exact value => .carrying (by simp) (by simp) (fits value)
  ofData?_toData
    | .any => rfl
    | .exact value => congrArg (Option.map Selector.exact) (ofData?_toData value)

instance : Shaped.Lawful Pair where
  fits pair := .record (by simp) rfl (by simp)
  ofData?_toData pair := by
    change (do return ⟨← ofData? (toData pair.tag), ← ofData? (toData pair.selector)⟩) = some pair
    simp

instance : Shaped.Lawful Rule where
  fits rule := .record (by simp) rfl (by simp)
  ofData?_toData rule := by
    change (do return ⟨← ofData? (toData rule.source), ← ofData? (toData rule.implied)⟩) = some rule
    simp

instance : Shaped.Lawful ListedPair where
  fits pair := .record (by simp) rfl (by simp)
  ofData?_toData pair := by
    change (do return ⟨← ofData? (toData pair.tag), ← ofData? (toData pair.value)⟩) = some pair
    simp

instance : Shaped.Lawful Settings where
  fits settings := .record (by simp) rfl (by simp)
  ofData?_toData settings := by
    change (do return ⟨← ofData? (toData settings.listImplied),
      ← ofData? (toData settings.prefilter), ← ofData? (toData settings.parallelThreshold)⟩) =
        some settings
    simp

/-- Everything that is stored, listed or configured is read back from its written form. -/
theorem Json.entities_round_trip {library : Json.Library} (hwrites : library.Writes)
    (hreads : library.Reads) (hback : library.ReadsBack) :
    library.RoundTrips FileId ∧ library.RoundTrips TagId ∧ library.RoundTrips ValueId ∧
      library.RoundTrips Tag ∧ library.RoundTrips Value ∧ library.RoundTrips Fact ∧
      library.RoundTrips Selector ∧ library.RoundTrips Pair ∧ library.RoundTrips Rule ∧
      library.RoundTrips ListedPair ∧ library.RoundTrips Settings := by
  refine ⟨?_, ?_, ?_, ?_, ?_, ?_, ?_, ?_, ?_, ?_, ?_⟩ <;>
    exact library.roundTrips hwrites hreads hback (by decide)

theorem Json.entities_round_trip_reference :
    let library := Json.Reference.library
    let tag : Tag := ⟨⟨7⟩, "say \"hi\"\n\x01λ"⟩
    let rule : Rule := ⟨.any ⟨1⟩, .exact ⟨2⟩ ⟨4294967295⟩⟩
    library.Writes ∧ library.Reads ∧ library.ReadsBack ∧
      library.write tag = "\x7b\"id\":7,\"name\":\"say \\\"hi\\\"\\n\\u0001λ\"\x7d" ∧
      library.read? (library.write tag) = some tag ∧
      library.write rule = "\x7b\"source\":\x7b\"tag\":1,\"value\":\"any\"\x7d," ++
        "\"implied\":\x7b\"tag\":2,\"value\":\x7b\"exact\":4294967295\x7d\x7d\x7d" ∧
      library.read? (library.write rule) = some rule := by
  intro library tag rule
  have hwrites := Json.Reference.library_writes
  have hreads := Json.Reference.library_reads
  have hback := Json.Reference.library_readsBack
  have htag : Json.Reference.library.write (⟨⟨7⟩, "say \"hi\"\n\x01λ"⟩ : Tag) =
      "\x7b\"id\":7,\"name\":\"say \\\"hi\\\"\\n\\u0001λ\"\x7d" := by decide +kernel
  have hrule : Json.Reference.library.write (⟨.any ⟨1⟩, .exact ⟨2⟩ ⟨4294967295⟩⟩ : Rule) =
      "\x7b\"source\":\x7b\"tag\":1,\"value\":\"any\"\x7d," ++
        "\"implied\":\x7b\"tag\":2,\"value\":\x7b\"exact\":4294967295\x7d\x7d\x7d" := by
    decide +kernel
  obtain ⟨-, -, -, htags, -, -, -, -, hrules, -, -⟩ :=
    Json.entities_round_trip hwrites hreads hback
  exact ⟨hwrites, hreads, hback, htag, htags.read?_write tag, hrule, hrules.read?_write rule⟩

end TagBase
