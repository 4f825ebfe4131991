import MatrixAudit.Json.Token

/-!
# Reading JSON

The tokens of a text drive a machine whose states say what may come next and what is still open. It
reads each token once. A text is a value if the machine is complete after the last token.
-/

namespace MatrixAudit

namespace Json

/-- A container that waits for the value of its next element or member. What it holds already is
kept last first. -/
inductive Frame where
  | array (elements : List Json)
  | object (members : List (Option String × Json)) (key : Option String)

/-- What may come next. `outer` are the containers around it, innermost first. -/
inductive State where
  | wantValue (outer : List Frame)
  /-- After the bracket that opens an array. -/
  | firstElement (outer : List Frame)
  /-- After the brace that opens an object. -/
  | firstKey (outer : List Frame)
  | wantKey (members : List (Option String × Json)) (outer : List Frame)
  | wantColon (members : List (Option String × Json)) (key : Option String) (outer : List Frame)
  | afterElement (elements : List Json) (outer : List Frame)
  | afterMember (members : List (Option String × Json)) (outer : List Frame)
  | complete (value : Json)

/-- The state after a value has been read. -/
def State.after (value : Json) : List Frame → State
  | [] => .complete value
  | .array elements :: outer => .afterElement (value :: elements) outer
  | .object members key :: outer => .afterMember ((key, value) :: members) outer

/-- The state after the first token of a value. -/
def State.begin (outer : List Frame) : Token → Option State
  | .openBracket => some (.firstElement outer)
  | .openBrace => some (.firstKey outer)
  | .null => some (.after .null outer)
  | .bool value => some (.after (.bool value) outer)
  | .number value => some (.after (.number value) outer)
  | .string text => some (.after (.string text) outer)
  | _ => none

def State.step : State → Token → Option State
  | .wantValue outer, token => State.begin outer token
  | .firstElement outer, .closeBracket => some (.after (.array []) outer)
  | .firstElement outer, token => State.begin (.array [] :: outer) token
  | .firstKey outer, .closeBrace => some (.after (.object []) outer)
  | .firstKey outer, .string text => some (.wantColon [] text outer)
  | .wantKey members outer, .string text => some (.wantColon members text outer)
  | .wantColon members key outer, .colon => some (.wantValue (.object members key :: outer))
  | .afterElement elements outer, .comma => some (.wantValue (.array elements :: outer))
  | .afterElement elements outer, .closeBracket => some (.after (.array elements.reverse) outer)
  | .afterMember members outer, .comma => some (.wantKey members outer)
  | .afterMember members outer, .closeBrace => some (.after (.object members.reverse) outer)
  | _, _ => none

def ofTokens? (tokens : List Token) : Option Json :=
  match tokens.foldlM State.step (.wantValue []) with
  | some (.complete value) => some value
  | _ => none

/-- The value that a text spells, with nothing but gaps around it. -/
def parse? (text : String) : Option Json := (lex text.toList).bind ofTokens?

end Json

end MatrixAudit
