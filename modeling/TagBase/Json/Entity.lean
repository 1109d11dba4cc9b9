import TagBase.Json.Library
import TagBase.Listing

namespace TagBase

open Json (Shaped)
open Json.Shaped (shape toData ofData?)

variable {kind : Kind}

instance : Shaped (Ident kind) where
  shape := .wrapped (shape UInt32)
  toData id := .wrapped (toData id.num)
  ofData?
    | .wrapped num => (ofData? num).map Ident.mk
    | _ => none

instance : Shaped (Named kind) where
  shape := .record [⟨"id", shape (Ident kind), none⟩, ⟨"name", shape String, none⟩]
  toData entry := .record [("id", toData entry.id), ("name", toData entry.name)]
  ofData?
    | .record [(_, id), (_, name)] => return ⟨← ofData? id, ← ofData? name⟩
    | _ => none

instance : Shaped Fact where
  shape := .record [⟨"file", shape FileId, none⟩, ⟨"tag", shape TagId, none⟩,
    ⟨"value", shape (Option ValueId), none⟩]
  toData fact := .record [("file", toData fact.file), ("tag", toData fact.tag),
    ("value", toData fact.value)]
  ofData?
    | .record [(_, file), (_, tag), (_, value)] =>
        return ⟨← ofData? file, ← ofData? tag, ← ofData? value⟩
    | _ => none

/-- The alternatives of a selector are called by their names in lower case. -/
instance : Shaped Selector where
  shape := .choice ["any"] [("exact", shape ValueId)]
  toData
    | .any => .alone "any"
    | .exact value => .carrying "exact" (toData value)
  ofData?
    | .alone "any" => some .any
    | .carrying "exact" value => (ofData? value).map Selector.exact
    | _ => none

instance : Shaped Pair where
  shape := .record [⟨"tag", shape TagId, none⟩, ⟨"value", shape Selector, none⟩]
  toData pair := .record [("tag", toData pair.tag), ("value", toData pair.selector)]
  ofData?
    | .record [(_, tag), (_, selector)] => return ⟨← ofData? tag, ← ofData? selector⟩
    | _ => none

instance : Shaped Rule where
  shape := .record [⟨"source", shape Pair, none⟩, ⟨"implied", shape Pair, none⟩]
  toData rule := .record [("source", toData rule.source), ("implied", toData rule.implied)]
  ofData?
    | .record [(_, source), (_, implied)] => return ⟨← ofData? source, ← ofData? implied⟩
    | _ => none

instance : Shaped ListedPair where
  shape := .record [⟨"tag", shape Tag, none⟩, ⟨"value", shape (Option Value), none⟩]
  toData pair := .record [("tag", toData pair.tag), ("value", toData pair.value)]
  ofData?
    | .record [(_, tag), (_, value)] => return ⟨← ofData? tag, ← ofData? value⟩
    | _ => none

end TagBase
