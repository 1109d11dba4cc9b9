import TagBase.Error
import TagBase.Text.Blank

namespace TagBase

inductive TokenKind where
  | name (text : String) (quoted : Bool)
  | operator (op : Operator)
  | openGroup
  | closeGroup
  | bang
  | and
  | or
  | not
deriving DecidableEq

structure Token where
  kind : TokenKind
  /-- The byte offset of its first character. -/
  start : Nat
deriving DecidableEq

def Operator.ofSymbol (symbol : String) : Except Error Operator :=
  match ofSymbol? symbol with
  | some op => .ok op
  | none => .error (.query (.unknownOperator symbol))

namespace Token

def isSpecial (c : Char) : Bool :=
  c == '(' || c == ')' || c == '"' || c == '=' || c == '!' || c == '<' || c == '>'

def isWordChar (c : Char) : Bool := !(Text.isBlank c || isSpecial c)

/-- The token that a bare word is: a keyword in any case, or a name. -/
def ofWord (word : List Char) : TokenKind :=
  if Text.isWord "and" word then .and
  else if Text.isWord "or" word then .or
  else if Text.isWord "not" word then .not
  else .name (.ofList word) false

/-- Reads a quoted text behind its opening quote: the text, and the number of characters up to and
with the closing quote. A backslash makes the next character an ordinary one. -/
def quoted? : List Char → Option (List Char × Nat)
  | [] => none
  | '"' :: _ => some ([], 1)
  | '\\' :: c :: rest => (quoted? rest).map fun (text, length) => (c :: text, length + 2)
  | '\\' :: [] => none
  | c :: rest => (quoted? rest).map fun (text, length) => (c :: text, length + 1)

/-- The token that starts with the character `c`, which is not blank, in front of `rest`, and the
number of characters of `rest` that belong to it. -/
def first (start : Nat) (c : Char) (rest : List Char) : Except Error (TokenKind × Nat) :=
  if c = '(' then .ok (.openGroup, 0)
  else if c = ')' then .ok (.closeGroup, 0)
  else if c = '"' then
    match quoted? rest with
    | some (text, length) => .ok (.name (.ofList text) true, length)
    | none => .error (.query (.unclosedQuote start))
  else if isSpecial c then
    if rest.head? = some '=' then do
      return (.operator (← Operator.ofSymbol (.ofList [c, '='])), 1)
    else if c = '!' then .ok (.bang, 0)
    else do return (.operator (← Operator.ofSymbol (.ofList [c])), 0)
  else
    let more := rest.takeWhile isWordChar
    .ok (ofWord (c :: more), more.length)

/-- The tokens from a byte offset on, where the next `skip` characters still belong to the token
before. -/
def scanFrom (start skip : Nat) : List Char → Except Error (List Token)
  | [] => .ok []
  | c :: rest =>
      match skip with
      | skip + 1 => scanFrom (start + c.utf8Size) skip rest
      | 0 =>
          if Text.isBlank c then scanFrom (start + c.utf8Size) 0 rest
          else do
            let (kind, more) ← first start c rest
            return ⟨kind, start⟩ :: (← scanFrom (start + c.utf8Size) more rest)

def scan (text : String) : Except Error (List Token) := scanFrom 0 0 text.toList

end Token

end TagBase
