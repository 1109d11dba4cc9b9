import TagBase.Proofs.Json.Laws

/-!
A library that keeps to the laws. It prints documents without blanks and parses what it prints.
-/

namespace TagBase.Json.Reference

section Texts

def escape (c : Char) : List Char :=
  if c = '"' then ['\\', '"']
  else if c = '\\' then ['\\', '\\']
  else if c = '\n' then ['\\', 'n']
  else if c = '\r' then ['\\', 'r']
  else if c = '\t' then ['\\', 't']
  else if c.toNat = 0x8 then ['\\', 'b']
  else if c.toNat = 0xc then ['\\', 'f']
  else if c.toNat < 0x20 then
    ['\\', 'u', '0', '0', Nat.digitChar (c.toNat / 16), Nat.digitChar (c.toNat % 16)]
  else [c]

def quote (content : String) : List Char := '"' :: (content.toList.flatMap escape ++ ['"'])

def hexValue (c : Char) : Nat :=
  if c.isDigit then c.toNat - '0'.toNat else c.toNat - 'a'.toNat + 10

/-- The character that a letter behind a backslash stands for. -/
def unescape (letter : Char) : Char :=
  if letter = 'n' then '\n'
  else if letter = 'r' then '\r'
  else if letter = 't' then '\t'
  else if letter = 'b' then '\x08'
  else if letter = 'f' then '\x0c'
  else letter

def content? : List Char → Option (List Char × List Char)
  | [] => none
  | '"' :: rest => some ([], rest)
  | '\\' :: 'u' :: _ :: _ :: high :: low :: rest =>
      (content? rest).map (Prod.map (.ofNat (hexValue high * 16 + hexValue low) :: ·) id)
  | '\\' :: letter :: rest => (content? rest).map (Prod.map (unescape letter :: ·) id)
  | c :: rest => (content? rest).map (Prod.map (c :: ·) id)

theorem ofNat_hexValue {n : Nat} (h : n < 0x20) :
    Char.ofNat (hexValue (Nat.digitChar (n / 16)) * 16 + hexValue (Nat.digitChar (n % 16))) =
      Char.ofNat n := by
  have hall : ∀ n : Fin 0x20, hexValue (Nat.digitChar (n.val / 16)) * 16 +
      hexValue (Nat.digitChar (n.val % 16)) = n.val := by decide
  exact congrArg Char.ofNat (hall ⟨n, h⟩)

theorem content?_escape (c : Char) (text : List Char) :
    content? (escape c ++ text) = (content? text).map (Prod.map (c :: ·) id) := by
  by_cases hquote : c = '"'
  · subst hquote
    rfl
  by_cases hbackslash : c = '\\'
  · subst hbackslash
    rfl
  by_cases hline : c = '\n'
  · subst hline
    rfl
  by_cases hreturn : c = '\r'
  · subst hreturn
    rfl
  by_cases htab : c = '\t'
  · subst htab
    rfl
  by_cases hback : c.toNat = 0x8
  · obtain rfl : c = '\x08' := Char.toNat_inj.mp hback
    rfl
  by_cases hpage : c.toNat = 0xc
  · obtain rfl : c = '\x0c' := Char.toNat_inj.mp hpage
    rfl
  rw [escape, if_neg hquote, if_neg hbackslash, if_neg hline, if_neg hreturn, if_neg htab,
    if_neg hback, if_neg hpage]
  by_cases hcontrol : c.toNat < 0x20
  · rw [if_pos hcontrol]
    change (content? text).map (Prod.map (Char.ofNat _ :: ·) id) = _
    rw [ofNat_hexValue hcontrol, Char.ofNat_toNat]
  · rw [if_neg hcontrol, List.singleton_append, content?]
    · exact hquote
    · exact fun _ _ _ _ _ hc _ => hbackslash hc
    · exact fun _ _ hc _ => hbackslash hc

theorem content?_flatMap_escape (content text : List Char) :
    content? (content.flatMap escape ++ '"' :: text) = some (content, text) := by
  induction content with
  | nil => rfl
  | cons c content ih => rw [List.flatMap_cons, List.append_assoc, content?_escape, ih]; rfl

theorem content?_quote (content : String) (text : List Char) :
    quote content ++ text = '"' :: (content.toList.flatMap escape ++ '"' :: text) := by
  simp [quote]

end Texts

section Printing

mutual

def chars : Json → List Char
  | .null => ['n', 'u', 'l', 'l']
  | .bool true => ['t', 'r', 'u', 'e']
  | .bool false => ['f', 'a', 'l', 's', 'e']
  | .natural n => n.repr.toList
  | .number literal => literal.toList
  | .text (some content) => quote content
  | .text none => ['"', '\\', 'u', 'd', '8', '0', '0', '"']
  | .array [] => ['[', ']']
  | .array (item :: items) => '[' :: (chars item ++ itemsBehind items)
  | .object [] => ['{', '}']
  | .object ((key, value) :: members) =>
      '{' :: (quote (key.getD "") ++ ':' :: (chars value ++ membersBehind members))

def itemsBehind : List Json → List Char
  | [] => [']']
  | item :: items => ',' :: (chars item ++ itemsBehind items)

def membersBehind : List (Option String × Json) → List Char
  | [] => ['}']
  | (key, value) :: members =>
      ',' :: (quote (key.getD "") ++ ':' :: (chars value ++ membersBehind members))

end

def print (json : Json) : String := .ofList (chars json)

/-- No digit stands at the head of a text. -/
def NoDigit (text : List Char) : Prop := ∀ c ∈ text.head?, c.isDigit = false

theorem noDigit_nil : NoDigit [] := nofun

theorem noDigit_membersBehind (members : List (Option String × Json)) (text : List Char) :
    NoDigit (membersBehind members ++ text) := by
  cases members <;> (rintro _ ⟨⟩; rfl)

end Printing

section Parsing

/-- What is behind a character at the head of a text. -/
def behind? (c : Char) : List Char → Option (List Char)
  | [] => none
  | d :: input => if d = c then some input else none

/-- The number that a text begins with, and what is behind it. -/
def natural? (input : List Char) : Option (Nat × List Char) :=
  match input.takeWhile Char.isDigit with
  | [] => none
  | digits => some (Nat.ofDigitChars 10 digits 0, input.dropWhile Char.isDigit)

theorem natural?_repr_append (n : Nat) {input : List Char} (hinput : NoDigit input) :
    natural? (n.repr.toList ++ input) = some (n, input) := by
  have hdigits : ∀ c ∈ n.repr.toList, c.isDigit = true := by
    rw [Nat.toList_repr]
    exact fun c hc => Nat.isDigit_of_mem_toDigits (by decide) (by decide) hc
  have htake : input.takeWhile Char.isDigit = [] ∧ input.dropWhile Char.isDigit = input := by
    cases input with
    | nil => exact ⟨rfl, rfl⟩
    | cons c input =>
        have hc : ¬ c.isDigit = true := by simp [hinput c rfl]
        exact ⟨List.takeWhile_cons_of_neg hc, List.dropWhile_cons_of_neg hc⟩
  have hne : n.repr.toList ≠ [] := by
    rw [Nat.toList_repr]
    exact List.ne_nil_of_length_pos Nat.length_toDigits_pos
  rw [natural?, List.takeWhile_append_of_pos hdigits, List.dropWhile_append_of_pos hdigits,
    htake.1, htake.2, List.append_nil]
  split
  · rename_i h
    exact absurd h hne
  · rw [Nat.toList_repr, Nat.ofDigitChars_toDigits (by decide) (by decide)]

mutual

/-- The document that a text begins with, and what is behind it. -/
def value? : Nat → List Char → Option (Json × List Char)
  | 0, _ => none
  | fuel + 1, input =>
      match natural? input, input with
      | some first, _ => some (.natural first.1, first.2)
      | none, 'n' :: 'u' :: 'l' :: 'l' :: rest => some (.null, rest)
      | none, 't' :: 'r' :: 'u' :: 'e' :: rest => some (.bool true, rest)
      | none, 'f' :: 'a' :: 'l' :: 's' :: 'e' :: rest => some (.bool false, rest)
      | none, '"' :: rest =>
          (content? rest).map (Prod.map (fun content => .text (some (.ofList content))) id)
      | none, '{' :: '}' :: rest => some (.object [], rest)
      | none, '{' :: rest => (members? fuel rest).map (Prod.map .object id)
      | none, _ => none

/-- The members up to the end of an object, of which there is one, and what is behind it. -/
def members? : Nat → List Char → Option (List (Option String × Json) × List Char)
  | 0, _ => none
  | fuel + 1, input => do
      let key ← content? (← behind? '"' input)
      let json ← value? fuel (← behind? ':' key.2)
      let member := (some (String.ofList key.1), json.1)
      match json.2 with
      | '}' :: rest => some ([member], rest)
      | ',' :: rest => (members? fuel rest).map (Prod.map (member :: ·) id)
      | _ => none

end

def ReadsValues (fuel : Nat) : Prop :=
  ∀ json input, Plain json → (chars json).length < fuel → NoDigit input →
    value? fuel (chars json ++ input) = some (json, input)

def ReadsMembers (fuel : Nat) : Prop :=
  ∀ (field : String × Json) (fields : List (String × Json)) (input : List Char),
    (∀ other ∈ field :: fields, Plain other.2) → (chars (.record (field :: fields))).length ≤ fuel →
    members? fuel
        (quote field.1 ++ ':' :: (chars field.2 ++ (membersBehind (membersOf fields) ++ input))) =
      some (membersOf (field :: fields), input)

theorem chars_record_cons (field : String × Json) (fields : List (String × Json)) :
    chars (.record (field :: fields)) =
      '{' :: (quote field.1 ++ ':' :: (chars field.2 ++ membersBehind (membersOf fields))) := rfl

theorem value?_record (fuel : Nat) (content : String) (input : List Char) :
    value? (fuel + 1) ('{' :: (quote content ++ input)) =
      (members? fuel (quote content ++ input)).map (Prod.map .object id) := rfl

theorem ReadsMembers.readsValues {fuel : Nat} (h : ReadsMembers fuel) : ReadsValues (fuel + 1) := by
  intro json input hjson hfuel hinput
  cases hjson with
  | null => rfl
  | bool value => cases value <;> rfl
  | natural n => simp only [chars, value?, natural?_repr_append n hinput]
  | text content =>
      rw [chars, content?_quote]
      change (content? _).map _ = _
      rw [content?_flatMap_escape]
      simp
  | record fields hfields =>
      cases fields with
      | nil => rfl
      | cons field fields =>
          have hmembers := h field fields input hfields (Nat.le_of_lt_succ hfuel)
          rw [chars_record_cons, List.cons_append, List.append_assoc, List.cons_append,
            List.append_assoc, value?_record, hmembers]
          rfl

theorem ReadsValues.readsMembers {fuel : Nat} (hvalue : ReadsValues fuel)
    (hmembers : ReadsMembers fuel) : ReadsMembers (fuel + 1) := by
  intro field fields input hfields hfuel
  obtain ⟨hfield, hfields⟩ := List.forall_mem_cons.mp hfields
  have hend : value? fuel (chars field.2 ++ (membersBehind (membersOf fields) ++ input)) =
      some (field.2, membersBehind (membersOf fields) ++ input) := by
    refine hvalue _ _ hfield ?_ (noDigit_membersBehind _ _)
    simp only [chars_record_cons, List.length_cons, List.length_append] at hfuel
    omega
  rw [content?_quote, members?]
  simp only [behind?, if_true, Option.bind_eq_bind, Option.bind_some, content?_flatMap_escape, hend,
    String.ofList_toList]
  cases fields with
  | nil => rfl
  | cons next fields =>
      have hrest := hmembers next fields input hfields ?_
      · simp only [membersOf, List.map_cons, membersBehind, List.cons_append, List.append_assoc,
          Option.getD_some] at hrest ⊢
        rw [hrest]
        rfl
      · simp only [chars_record_cons, List.length_cons, List.length_append, membersOf,
          List.map_cons, membersBehind, Option.getD_some] at hfuel ⊢
        omega

theorem readsValues_and_readsMembers (fuel : Nat) : ReadsValues fuel ∧ ReadsMembers fuel := by
  induction fuel with
  | zero =>
      constructor
      · intro json input _ hfuel
        exact absurd hfuel (Nat.not_lt_zero _)
      · intro field fields input _ hfuel
        exact absurd hfuel (Nat.not_succ_le_zero _)
  | succ fuel ih => exact ⟨ih.2.readsValues, ih.1.readsMembers ih.2⟩

def parse? (input : String) : Option Json :=
  match value? (input.toList.length + 1) input.toList with
  | some (json, []) => some json
  | _ => none

theorem parse?_print {json : Json} (h : Plain json) : parse? (print json) = some json := by
  have hvalue := (readsValues_and_readsMembers _).1 json [] h (Nat.lt_succ_self _) noDigit_nil
  rw [List.append_nil] at hvalue
  rw [parse?, print, String.toList_ofList, hvalue]

end Parsing

section Coding

mutual

def encode : Data → Json
  | .bool value => .bool value
  | .word32 n => .natural n.toNat
  | .word64 n => .natural n.toNat
  | .text content => .text (some content)
  | .absent => .null
  | .present value => encode value
  | .wrapped value => encode value
  | .record fields => .record (encodeFields fields)
  | .alone name => .text (some name)
  | .carrying name value => .record [(name, encode value)]

def encodeFields : List (String × Data) → List (String × Json)
  | [] => []
  | (name, value) :: rest => (name, encode value) :: encodeFields rest

end

mutual

def decode? : Shape → Json → Option Data
  | .bool, .bool value => some (.bool value)
  | .word32, .natural n => if n < UInt32.size then some (.word32 (.ofNat n)) else none
  | .word64, .natural n => if n < UInt64.size then some (.word64 (.ofNat n)) else none
  | .text, .text content => content.map Data.text
  | .optional _, .null => some .absent
  | .optional inner, json => (decode? inner json).map Data.present
  | .wrapped inner, json => (decode? inner json).map Data.wrapped
  | .record fields, .object members => (decodeFields? fields members).map Data.record
  | .choice alone _, .text (some name) => if name ∈ alone then some (.alone name) else none
  | .choice _ carrying, .object [(some name, json)] => decodeVariant? carrying name json
  | _, _ => none

def decodeFields? : List (Field Shape) → List (Option String × Json) →
    Option (List (String × Data))
  | [], _ => some []
  | ⟨name, shape, default?⟩ :: fields, members => do
      let value ← match members.lookup (some name) with
        | some json => decode? shape json
        | none => default?
      return (name, value) :: (← decodeFields? fields members)

def decodeVariant? : List (String × Shape) → String → Json → Option Data
  | [], _, _ => none
  | (name, shape) :: rest, chosen, json =>
      if name = chosen then (decode? shape json).map (Data.carrying name)
      else decodeVariant? rest chosen json

end

end Coding

def library : Library where
  parse? := parse?
  decode? := decode?
  encode := encode
  print := print

theorem library_readsBack : library.ReadsBack := fun _ => parse?_print

theorem encodeFields_eq (fields : List (String × Data)) :
    encodeFields fields = fields.map fun field => (field.1, encode field.2) := by
  induction fields with
  | nil => rfl
  | cons field fields ih => rw [encodeFields, ih]; rfl

theorem library_writes : library.Writes where
  bool _ := rfl
  word32 _ := rfl
  word64 _ := rfl
  text _ := rfl
  absent := rfl
  present _ := rfl
  wrapped _ := rfl
  record fields := congrArg Json.record (encodeFields_eq fields)
  alone _ := rfl
  carrying _ _ := rfl

theorem lookup_record (name : String) (members : List (String × Json)) :
    (membersOf members).lookup (some name) =
      (valuesUnder name members).head? := by
  induction members with
  | nil => rfl
  | cons member members ih =>
      rw [membersOf, List.map_cons, List.lookup_cons, ← membersOf, ih]
      by_cases hname : member.1 = name
      · simp [valuesUnder, hname]
      · have hne : (some name == some member.1) = false := by simpa using Ne.symm hname
        simp [valuesUnder, hname, hne]

theorem decodeFields?_eq_some {fields : List (Field Shape)} {members : List (String × Json)}
    {values : List (String × Data)} (hnames : values.map Prod.fst = fields.map Field.name)
    (h : ∀ field ∈ fields, ∀ value, (field.name, value) ∈ values →
      library.Gives members field value) :
    decodeFields? fields (membersOf members) = some values := by
  induction fields generalizing values with
  | nil =>
      rw [List.map_eq_nil_iff.mp hnames]
      rfl
  | cons field fields ih =>
      obtain ⟨⟨name, value⟩, values, rfl, hname, htail⟩ := List.map_eq_cons_iff.mp hnames
      obtain ⟨_, shape, default?⟩ := field
      obtain rfl : name = _ := hname
      have hrest := ih htail fun field hfield value hvalue =>
        h field (List.mem_cons_of_mem _ hfield) value (List.mem_cons_of_mem _ hvalue)
      rw [decodeFields?, lookup_record, hrest]
      rcases h _ List.mem_cons_self value List.mem_cons_self with
        ⟨json, hjson, hdecode⟩ | ⟨hnone, hdefault⟩
      · have hdecode : decode? shape json = some value := hdecode
        simp only [hjson, List.head?_cons, hdecode]
        rfl
      · obtain rfl : default? = some value := hdefault
        simp only [hnone, List.head?_nil]
        rfl

theorem decodeVariant?_eq_some {carrying : List (String × Shape)} {name : String} {inner : Shape}
    {json : Json} {value : Data} (hnodup : (carrying.map Prod.fst).Nodup)
    (hname : (name, inner) ∈ carrying) (h : decode? inner json = some value) :
    decodeVariant? carrying name json = some (.carrying name value) := by
  induction carrying with
  | nil => exact absurd hname List.not_mem_nil
  | cons variant carrying ih =>
      obtain ⟨other, shape⟩ := variant
      obtain ⟨hother, hnodup⟩ := List.nodup_cons.mp hnodup
      rw [decodeVariant?]
      rcases List.mem_cons.mp hname with heq | hname
      · obtain ⟨rfl, rfl⟩ := Prod.mk.inj heq
        rw [if_pos rfl, h, Option.map_some]
      · have hmem : (name, inner).1 ∈ carrying.map Prod.fst := List.mem_map_of_mem hname
        have hne : other ≠ name := by
          rintro rfl
          exact hother hmem
        rw [if_neg hne, ih hnodup hname]

theorem library_reads : library.Reads where
  bool _ := rfl
  word32 n := by
    change (if n.toNat < UInt32.size then some (Data.word32 (.ofNat n.toNat)) else none) = _
    rw [if_pos n.toNat_lt_size, UInt32.ofNat_toNat]
  word64 n := by
    change (if n.toNat < UInt64.size then some (Data.word64 (.ofNat n.toNat)) else none) = _
    rw [if_pos n.toNat_lt_size, UInt64.ofNat_toNat]
  text _ := rfl
  absent _ := rfl
  present inner json value hnull h := by
    have hdecode : decode? (.optional inner) json = (decode? inner json).map Data.present := by
      cases json with
      | null => exact absurd rfl hnull
      | _ => rfl
    exact hdecode.trans (congrArg (Option.map Data.present) h)
  wrapped _ _ _ h := congrArg (Option.map Data.wrapped) h
  record _ _ _ _ _ hnames h := congrArg (Option.map Data.record) (decodeFields?_eq_some hnames h)
  alone _ _ _ _ hname := if_pos hname
  carrying _ _ _ _ _ _ _ hnodup hname h :=
    decodeVariant?_eq_some (List.nodup_append.mp hnodup).2.1 hname h

end TagBase.Json.Reference
