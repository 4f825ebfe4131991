/-!
# JSON values

A value as a text spells it. Numbers keep apart what a reader of integers has to tell apart, and a
string literal whose surrogate escapes do not pair up denotes no text. Members keep their order and
their repetitions.
-/

namespace MatrixAudit

/-- A number literal: an integer with its sign, or a number with a fraction or an exponent. -/
inductive JsonNumber where
  | integer (negative : Bool) (magnitude : Nat)
  | fractional
deriving DecidableEq

inductive Json where
  | null
  | bool (value : Bool)
  | number (value : JsonNumber)
  /-- A string literal and the text it denotes, if any. -/
  | string (text : Option String)
  | array (elements : List Json)
  | object (members : List (Option String × Json))

namespace Json

def nat (value : Nat) : Json := number (.integer false value)

def text (value : String) : Json := string (some value)

def record (members : List (String × Json)) : Json :=
  object (members.map fun member => (some member.1, member.2))

end Json

end MatrixAudit
