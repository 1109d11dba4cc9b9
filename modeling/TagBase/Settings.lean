import TagBase.Error
import TagBase.Json.Library

namespace TagBase

open Json (Library Shaped)
open Json.Shaped (shape toData ofData?)

structure Settings where
  listImplied : Bool
  prefilter : Bool
  /-- The number of files from which on work may be shared out; no answer depends on it. -/
  parallelThreshold : UInt64
deriving DecidableEq

namespace Settings

def default : Settings := ⟨false, true, 4096⟩

/-- A setting that a document leaves out keeps its default. -/
instance : Shaped Settings where
  shape := .record [
    ⟨"include_implied_pairs", shape Bool, some (toData default.listImplied)⟩,
    ⟨"prefilter_candidates", shape Bool, some (toData default.prefilter)⟩,
    ⟨"parallel_threshold", shape UInt64, some (toData default.parallelThreshold)⟩]
  toData settings := .record [
    ("include_implied_pairs", toData settings.listImplied),
    ("prefilter_candidates", toData settings.prefilter),
    ("parallel_threshold", toData settings.parallelThreshold)]
  ofData?
    | .record [(_, listImplied), (_, prefilter), (_, parallelThreshold)] =>
        return ⟨← ofData? listImplied, ← ofData? prefilter, ← ofData? parallelThreshold⟩
    | _ => none

/-- The settings that a document holds, read from a path if there is one. The threshold has to be
positive. -/
def ofText (library : Library) (text : String) (path : Option String) : Except Error Settings :=
  match (library.read? text : Option Settings) with
  | none => .error (.settings path .malformed)
  | some settings =>
      if settings.parallelThreshold = 0 then .error (.settings path .zeroThreshold)
      else .ok settings

/-- The settings that a file holds; without contents there is no such file. -/
def ofFile (library : Library) (path : String) (contents : Option ByteArray) :
    Except Error Settings :=
  match contents with
  | none => .error (.file .notFound)
  | some bytes =>
      match String.fromUTF8? bytes with
      | none => .error (.file .notText)
      | some text => ofText library text (some path)

end Settings

end TagBase
