import MatrixAudit.Json.Value

/-!
# Writing JSON

Two layouts of one value: `compact` writes no gaps at all, `pretty` puts every element and member on
a line of its own, two blanks deeper than its container, and a blank behind each colon.
-/

namespace MatrixAudit

namespace Json

/-- A character inside a string literal: quotes, backslashes and control characters are escaped. -/
def escape (c : Char) : List Char :=
  if c = '"' then ['\\', '"']
  else if c = '\\' then ['\\', '\\']
  else if c = '\x08' then ['\\', 'b']
  else if c = '\t' then ['\\', 't']
  else if c = '\n' then ['\\', 'n']
  else if c = '\x0c' then ['\\', 'f']
  else if c = '\r' then ['\\', 'r']
  else if c.toNat < 32 then
    ['\\', 'u', '0', '0', Nat.digitChar (c.toNat / 16), Nat.digitChar (c.toNat % 16)]
  else [c]

/-- A string literal. One that denotes no text is written as a lone surrogate. -/
def quoted : Option String → List Char
  | some text => '"' :: text.toList.flatMap escape ++ ['"']
  | none => ['"', '\\', 'u', 'd', '8', '0', '0', '"']

/-- A number literal; of numbers that are no integers only that fact is kept. -/
def numeral : JsonNumber → List Char
  | .integer false magnitude => Nat.toDigits 10 magnitude
  | .integer true magnitude => '-' :: Nat.toDigits 10 magnitude
  | .fractional => ['0', '.', '0']

mutual

/-- The text of a value without gaps. -/
def compactChars : Json → List Char
  | .null => ['n', 'u', 'l', 'l']
  | .bool true => ['t', 'r', 'u', 'e']
  | .bool false => ['f', 'a', 'l', 's', 'e']
  | .number value => numeral value
  | .string text => quoted text
  | .array [] => ['[', ']']
  | .array (first :: rest) => '[' :: compactChars first ++ compactElements rest
  | .object [] => ['{', '}']
  | .object ((key, value) :: rest) =>
    '{' :: quoted key ++ ':' :: compactChars value ++ compactMembers rest

/-- The further elements of an array, and its end. -/
def compactElements : List Json → List Char
  | [] => [']']
  | next :: rest => ',' :: compactChars next ++ compactElements rest

/-- The further members of an object, and its end. -/
def compactMembers : List (Option String × Json) → List Char
  | [] => ['}']
  | (key, value) :: rest =>
    ',' :: quoted key ++ ':' :: compactChars value ++ compactMembers rest

end

def newLine (depth : Nat) : List Char := '\n' :: List.replicate (2 * depth) ' '

mutual

/-- The text of a value at the given depth, a line for each element and member. -/
def prettyChars (depth : Nat) : Json → List Char
  | .null => ['n', 'u', 'l', 'l']
  | .bool true => ['t', 'r', 'u', 'e']
  | .bool false => ['f', 'a', 'l', 's', 'e']
  | .number value => numeral value
  | .string text => quoted text
  | .array [] => ['[', ']']
  | .array (first :: rest) =>
    '[' :: newLine (depth + 1) ++ prettyChars (depth + 1) first ++ prettyElements depth rest
  | .object [] => ['{', '}']
  | .object ((key, value) :: rest) =>
    '{' :: newLine (depth + 1) ++ quoted key ++ ':' :: ' ' :: prettyChars (depth + 1) value ++
      prettyMembers depth rest

/-- The further elements of an array at the given depth, and its end. -/
def prettyElements (depth : Nat) : List Json → List Char
  | [] => newLine depth ++ [']']
  | next :: rest =>
    ',' :: newLine (depth + 1) ++ prettyChars (depth + 1) next ++ prettyElements depth rest

/-- The further members of an object at the given depth, and its end. -/
def prettyMembers (depth : Nat) : List (Option String × Json) → List Char
  | [] => newLine depth ++ ['}']
  | (key, value) :: rest =>
    ',' :: newLine (depth + 1) ++ quoted key ++ ':' :: ' ' :: prettyChars (depth + 1) value ++
      prettyMembers depth rest

end

def compact (value : Json) : String := String.ofList (compactChars value)

def pretty (value : Json) : String := String.ofList (prettyChars 0 value)

end Json

end MatrixAudit
