import TagBase.Json.Basic
import TagBase.Json.Shape

namespace TagBase.Json

/-- The library to which JSON is left. It goes from texts to documents and from these, told the
shape of a type, to data; and the same way back. -/
structure Library where
  parse? : String → Option Json
  decode? : Shape → Json → Option Data
  encode : Data → Json
  print : Json → String

class Shaped (α : Type) where
  shape : Shape
  toData : α → Data
  ofData? : Data → Option α

namespace Library

variable {α : Type} [Shaped α]

def read? (library : Library) (text : String) : Option α := do
  let json ← library.parse? text
  Shaped.ofData? (← library.decode? (Shaped.shape α) json)

def write (library : Library) (value : α) : String :=
  library.print (library.encode (Shaped.toData value))

end Library

instance : Shaped Bool where
  shape := .bool
  toData := .bool
  ofData?
    | .bool value => some value
    | _ => none

instance : Shaped UInt32 where
  shape := .word32
  toData := .word32
  ofData?
    | .word32 n => some n
    | _ => none

instance : Shaped UInt64 where
  shape := .word64
  toData := .word64
  ofData?
    | .word64 n => some n
    | _ => none

instance : Shaped String where
  shape := .text
  toData := .text
  ofData?
    | .text content => some content
    | _ => none

instance {α : Type} [Shaped α] : Shaped (Option α) where
  shape := .optional (Shaped.shape α)
  toData
    | none => .absent
    | some value => .present (Shaped.toData value)
  ofData?
    | .absent => some none
    | .present value => (Shaped.ofData? value).map some
    | _ => none

end TagBase.Json
