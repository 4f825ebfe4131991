import Mathlib.Tactic.IntervalCases
import Mathlib.Tactic.Lemma
import Mathlib.Data.Nat.Notation
import MatrixAudit.Json.Token

/-!
# How JSON tokens are spelled

One token can be written in many ways: a character of a string as it is or escaped, an escape in
either case, a number with or without an exponent. Here is which characters spell which token, and
that the lexer takes exactly them off the front of a text, unless a number goes on behind them.
-/

namespace MatrixAudit
namespace Json

section Strings

/-- A hexadecimal digit, in either case, and its value. -/
def HexDigit (c : Char) (value : ℕ) : Prop :=
  value < 16 ∧ (c = Nat.digitChar value ∨ c = (Nat.digitChar value).toUpper)

lemma hexValue?_of_hexDigit {c : Char} {value : ℕ} (h : HexDigit c value) :
    hexValue? c = some value := by
  obtain ⟨hlt, hc⟩ := h
  interval_cases value <;> rcases hc with rfl | rfl <;> rfl

/-- How one part of a string literal is written. -/
inductive Piece.Spelled : Piece → List Char → Prop
  | plain {c : Char} (quote : c ≠ '"') (backslash : c ≠ '\\') (printable : 32 ≤ c.toNat) :
    Spelled (.char c) [c]
  | short {e c : Char} (h : escaped? e = some c) : Spelled (.char c) ['\\', e]
  | unit {a b c d : Char} {w x y z : ℕ} (ha : HexDigit a w) (hb : HexDigit b x)
    (hc : HexDigit c y) (hd : HexDigit d z) :
    Spelled (.unit (w * 4096 + x * 256 + y * 16 + z)) ['\\', 'u', a, b, c, d]

inductive SpelledPieces : List Piece → List Char → Prop
  | nil : SpelledPieces [] []
  | cons {piece : Piece} {parts : List Piece} {text rest : List Char}
    (first : piece.Spelled text) (more : SpelledPieces parts rest) :
    SpelledPieces (piece :: parts) (text ++ rest)

/-- The text that pieces denote: a code unit outside the surrogates is a character, and two
surrogates are one only as a pair. -/
inductive Denotes : List Piece → List Char → Prop
  | nil : Denotes [] []
  | char {c : Char} {parts : List Piece} {text : List Char} (more : Denotes parts text) :
    Denotes (.char c :: parts) (c :: text)
  | unit {code : ℕ} {parts : List Piece} {text : List Char} (leading : isLeading code = false)
    (trailing : isTrailing code = false) (more : Denotes parts text) :
    Denotes (.unit code :: parts) (Char.ofNat code :: text)
  | pair {lead trail : ℕ} {parts : List Piece} {text : List Char}
    (leading : isLeading lead = true) (trailing : isTrailing trail = true)
    (more : Denotes parts text) :
    Denotes (.unit lead :: .unit trail :: parts)
      (Char.ofNat (0x10000 + (lead - 0xD800) * 0x400 + (trail - 0xDC00)) :: text)

lemma pieces?_of_spelled {piece : Piece} {text : List Char} (h : piece.Spelled text)
    (rest : List Char) :
    pieces? (text ++ rest) = (pieces? rest).map fun found => (piece :: found.1, found.2) := by
  cases h with
  | @plain c quote backslash printable =>
    have hbare : ¬(c = '\\' ∨ c.toNat < 32) := by
      rintro (h | h)
      · exact backslash h
      · omega
    rw [List.singleton_append, pieces?, if_neg hbare]
    · cases pieces? rest <;> rfl
    · exact fun h => quote h
    · exact fun _ _ _ _ _ h => absurd h backslash
    · exact fun _ _ h => absurd h backslash
  | @short e c h =>
    have hne : e ≠ 'u' := by
      rintro rfl
      cases h
    rw [List.cons_append, List.singleton_append, pieces?, h]
    · cases pieces? rest <;> rfl
    · exact fun _ _ _ _ _ h _ => hne h
  | @unit a b c d w x y z ha hb hc hd =>
    have hcode : codeUnit? a b c d = some (w * 4096 + x * 256 + y * 16 + z) := by
      simp only [codeUnit?, hexValue?_of_hexDigit ha, hexValue?_of_hexDigit hb,
        hexValue?_of_hexDigit hc, hexValue?_of_hexDigit hd, Option.bind_eq_bind, Option.bind_some,
        Option.pure_def, Option.some.injEq]
      omega
    simp only [List.cons_append, List.nil_append]
    rw [pieces?, hcode]
    cases pieces? rest <;> rfl

lemma pieces?_of_spelledPieces {parts : List Piece} {text : List Char}
    (h : SpelledPieces parts text) (rest : List Char) :
    pieces? (text ++ '"' :: rest) = some (parts, rest) := by
  induction h with
  | nil => rw [List.nil_append, pieces?]
  | cons first more ih => rw [List.append_assoc, pieces?_of_spelled first, ih, Option.map_some]

lemma pieceText?_unit {code : ℕ} (leading : isLeading code = false)
    (trailing : isTrailing code = false) (parts : List Piece) :
    pieceText? (.unit code :: parts) = (pieceText? parts).map (Char.ofNat code :: ·) := by
  obtain _ | ⟨_ | trail, rest⟩ := parts <;> simp [pieceText?, leading, trailing]

lemma pieceText?_of_denotes {parts : List Piece} {text : List Char} (h : Denotes parts text) :
    pieceText? parts = some text := by
  induction h with
  | nil => rfl
  | char more ih => rw [pieceText?, ih, Option.map_some]
  | unit leading trailing more ih =>
    rw [pieceText?_unit leading trailing, ih, Option.map_some]
  | pair leading trailing more ih =>
    rw [pieceText?, if_pos leading, if_pos trailing, ih, Option.map_some]

lemma denotes_of_pieceText? {parts : List Piece} {text : List Char}
    (h : pieceText? parts = some text) : Denotes parts text := by
  fun_induction pieceText? parts generalizing text with
  | case1 =>
    cases h
    exact .nil
  | case2 c rest ih =>
    obtain ⟨more, hmore, rfl⟩ := Option.map_eq_some_iff.1 h
    exact .char (ih hmore)
  | case3 lead trail rest hlead htrail ih =>
    obtain ⟨more, hmore, rfl⟩ := Option.map_eq_some_iff.1 h
    exact .pair hlead htrail (ih hmore)
  | case4 => cases h
  | case5 => cases h
  | case6 code trail rest hleading htrailing ih =>
    obtain ⟨more, hmore, rfl⟩ := Option.map_eq_some_iff.1 h
    exact .unit (Bool.eq_false_iff.2 hleading) (Bool.eq_false_iff.2 htrailing) (ih hmore)
  | case7 => cases h
  | case8 code rest _ halone ih =>
    obtain ⟨more, hmore, rfl⟩ := Option.map_eq_some_iff.1 h
    rw [Bool.or_eq_true, not_or] at halone
    exact .unit (Bool.eq_false_iff.2 halone.1) (Bool.eq_false_iff.2 halone.2) (ih hmore)

end Strings

section Numbers

def Digits (cs : List Char) : Prop := cs ≠ [] ∧ ∀ c ∈ cs, c.isDigit = true

/-- An integer without a sign: digits, of which the first is zero only if it is alone. -/
structure WholeNumber (cs : List Char) : Prop where
  digits : Digits cs
  zero_alone : cs.head? = some '0' → cs = ['0']

inductive Fraction : List Char → Prop
  | absent : Fraction []
  | point {cs : List Char} (digits : Digits cs) : Fraction ('.' :: cs)

inductive Exponent : List Char → Prop
  | absent : Exponent []
  | power {e : Char} {sign cs : List Char} (letter : e = 'e' ∨ e = 'E')
    (signed : sign ∈ [[], ['+'], ['-']]) (digits : Digits cs) : Exponent (e :: (sign ++ cs))

/-- Nothing that begins like this goes on with digits. -/
def NoDigit (cs : List Char) : Prop := ∀ c ∈ cs.head?, c.isDigit = false

/-- A number ends in front of this. -/
structure EndsNumber (cs : List Char) : Prop where
  noDigit : NoDigit cs
  noPoint : ∀ c ∈ cs.head?, c ≠ '.'
  noPower : ∀ c ∈ cs.head?, c ≠ 'e' ∧ c ≠ 'E'

variable {cs rest : List Char}

lemma takeWhile_digits (digits : ∀ c ∈ cs, c.isDigit = true) (h : NoDigit rest) :
    (cs ++ rest).takeWhile Char.isDigit = cs := by
  have hrest : rest.takeWhile Char.isDigit = [] := by
    obtain _ | ⟨c, rest⟩ := rest
    · rfl
    · rw [List.takeWhile_cons_of_neg]
      simpa using h c rfl
  rw [List.takeWhile_append_of_pos digits, hrest, List.append_nil]

lemma dropWhile_digits (digits : ∀ c ∈ cs, c.isDigit = true) (h : NoDigit rest) :
    (cs ++ rest).dropWhile Char.isDigit = rest := by
  have hrest : rest.dropWhile Char.isDigit = rest := by
    obtain _ | ⟨c, rest⟩ := rest
    · rfl
    · rw [List.dropWhile_cons_of_neg]
      simpa using h c rfl
  rw [List.dropWhile_append_of_pos digits, hrest]

lemma whole?_append (whole : WholeNumber cs) (h : NoDigit rest) :
    whole? (cs ++ rest) = some (cs, rest) := by
  rw [whole?, takeWhile_digits whole.digits.2 h, dropWhile_digits whole.digits.2 h]
  split
  · exact absurd rfl whole.digits.1
  · have hzero := whole.zero_alone rfl
    cases hzero
  · rfl

lemma afterDigits?_append (digits : Digits cs) (h : NoDigit rest) :
    afterDigits? (cs ++ rest) = some rest := by
  rw [afterDigits?, takeWhile_digits digits.2 h, dropWhile_digits digits.2 h, if_neg]
  rw [List.isEmpty_iff]
  exact digits.1

lemma Fraction.noDigit (fraction : Fraction cs) (h : NoDigit rest) : NoDigit (cs ++ rest) := by
  cases fraction with
  | absent => exact h
  | point digits =>
    rintro _ ⟨rfl⟩
    rfl

lemma Exponent.noDigit (exponent : Exponent cs) (h : NoDigit rest) : NoDigit (cs ++ rest) := by
  cases exponent with
  | absent => exact h
  | power letter signed digits =>
    rintro _ ⟨rfl⟩
    rcases letter with rfl | rfl <;> rfl

lemma Exponent.noPoint (exponent : Exponent cs) (h : ∀ c ∈ rest.head?, c ≠ '.') :
    ∀ c ∈ (cs ++ rest).head?, c ≠ '.' := by
  cases exponent with
  | absent => exact h
  | power letter signed digits =>
    rintro _ ⟨rfl⟩
    rcases letter with rfl | rfl <;> decide

lemma fraction?_append (fraction : Fraction cs) (hdigit : NoDigit rest)
    (hpoint : ∀ c ∈ rest.head?, c ≠ '.') :
    fraction? (cs ++ rest) = some (!cs.isEmpty, rest) := by
  cases fraction with
  | absent =>
    obtain _ | ⟨c, rest⟩ := rest
    · rfl
    · rw [List.nil_append, fraction?]
      · rfl
      · exact fun _ h => hpoint c rfl (List.cons.inj h).1
  | point digits =>
    rw [List.cons_append, fraction?, afterDigits?_append digits hdigit]
    rfl

lemma afterSign_append {sign : List Char} (signed : sign ∈ [[], ['+'], ['-']]) (digits : Digits cs)
    (rest : List Char) : afterSign (sign ++ cs ++ rest) = cs ++ rest := by
  obtain ⟨hne, hdigits⟩ := digits
  obtain _ | ⟨c, cs⟩ := cs
  · exact absurd rfl hne
  · have hc := hdigits c List.mem_cons_self
    simp only [List.mem_cons, List.not_mem_nil, or_false] at signed
    rcases signed with rfl | rfl | rfl
    · rw [List.nil_append, List.cons_append, afterSign]
      · rintro _ h
        rw [(List.cons.inj h).1] at hc
        cases hc
      · rintro _ h
        rw [(List.cons.inj h).1] at hc
        cases hc
    · rfl
    · rfl

lemma exponent?_append (exponent : Exponent cs) (h : EndsNumber rest) :
    exponent? (cs ++ rest) = some (!cs.isEmpty, rest) := by
  cases exponent with
  | absent =>
    obtain _ | ⟨c, rest⟩ := rest
    · rfl
    · rw [List.nil_append, exponent?]
      · rfl
      · exact fun _ heq => (h.noPower c rfl).1 (List.cons.inj heq).1
      · exact fun _ heq => (h.noPower c rfl).2 (List.cons.inj heq).1
  | power letter signed digits =>
    rcases letter with rfl | rfl <;>
    · rw [List.cons_append, exponent?, afterSign_append signed digits,
        afterDigits?_append digits h.noDigit]
      rfl

/-- What a number literal says. -/
def literalNumber (negative : Bool) (digits fraction exponent : List Char) : JsonNumber :=
  if fraction = [] ∧ exponent = [] then .integer negative (Nat.ofDigitChars 10 digits 0)
  else .fractional

lemma number?_append {digits fraction exponent : List Char} (negative : Bool)
    (hdigits : WholeNumber digits) (hfraction : Fraction fraction) (hexponent : Exponent exponent)
    (h : EndsNumber rest) :
    number? negative (digits ++ (fraction ++ (exponent ++ rest))) =
      some (.number (literalNumber negative digits fraction exponent), rest) := by
  have hbehind := hexponent.noDigit h.noDigit
  simp only [number?, whole?_append hdigits (hfraction.noDigit hbehind),
    fraction?_append hfraction hbehind (hexponent.noPoint h.noPoint), exponent?_append hexponent h,
    Option.bind_eq_bind, Option.bind_some, literalNumber]
  cases fraction <;> cases exponent <;> rfl

end Numbers

/-- How a token is written. -/
inductive Token.Spelled : Token → List Char → Prop
  | openBrace : Spelled .openBrace ['{']
  | closeBrace : Spelled .closeBrace ['}']
  | openBracket : Spelled .openBracket ['[']
  | closeBracket : Spelled .closeBracket [']']
  | comma : Spelled .comma [',']
  | colon : Spelled .colon [':']
  | null : Spelled .null ['n', 'u', 'l', 'l']
  | isTrue : Spelled (.bool true) ['t', 'r', 'u', 'e']
  | isFalse : Spelled (.bool false) ['f', 'a', 'l', 's', 'e']
  | number {negative : Bool} {digits fraction exponent : List Char} (hdigits : WholeNumber digits)
    (hfraction : Fraction fraction) (hexponent : Exponent exponent) :
    Spelled (.number (literalNumber negative digits fraction exponent))
      ((if negative then ['-'] else []) ++ (digits ++ (fraction ++ exponent)))
  | string {parts : List Piece} {cs : List Char} {text : Option String}
    (hparts : SpelledPieces parts cs) (htext : ∀ t, text = some t ↔ Denotes parts t.toList) :
    Spelled (.string text) ('"' :: (cs ++ ['"']))

def Token.IsNumber (token : Token) : Prop := ∃ value, token = .number value

lemma not_isGap_of_isDigit {c : Char} (h : c.isDigit = true) : isGap c = false := by
  rw [Bool.eq_false_iff]
  intro hgap
  simp only [isGap, Bool.or_eq_true, decide_eq_true_eq] at hgap
  rcases hgap with ((rfl | rfl) | rfl) | rfl <;> cases h

lemma lexeme?_of_isDigit {c : Char} (h : c.isDigit = true) (rest : List Char) :
    lexeme? c rest = number? false (c :: rest) := by
  unfold lexeme?
  split
  case h_12 => rw [if_pos h]
  all_goals cases h

lemma lexeme?_of_spelled {token : Token} {text : List Char} (h : token.Spelled text)
    {rest : List Char} (apart : token.IsNumber → EndsNumber rest) :
    ∃ c cs, text = c :: cs ∧ isGap c = false ∧ lexeme? c (cs ++ rest) = some (token, rest) := by
  cases h with
  | @number negative digits fraction exponent hdigits hfraction hexponent =>
    have hnumber := number?_append negative hdigits hfraction hexponent (apart ⟨_, rfl⟩)
    cases negative with
    | true =>
      refine ⟨'-', digits ++ (fraction ++ exponent), rfl, rfl, ?_⟩
      rw [List.append_assoc, List.append_assoc, lexeme?]
      exact hnumber
    | false =>
      obtain ⟨hne, hall⟩ := hdigits.digits
      obtain _ | ⟨c, cs⟩ := digits
      · exact absurd rfl hne
      have hc := hall c List.mem_cons_self
      refine ⟨c, cs ++ (fraction ++ exponent), rfl, not_isGap_of_isDigit hc, ?_⟩
      rw [lexeme?_of_isDigit hc, List.append_assoc, List.append_assoc]
      exact hnumber
  | @string parts cs text hparts htext =>
    refine ⟨'"', _, rfl, rfl, ?_⟩
    rw [List.append_assoc, List.singleton_append, lexeme?, pieces?_of_spelledPieces hparts]
    have hdenoted : (pieceText? parts).map String.ofList = text := by
      cases text with
      | some t => rw [pieceText?_of_denotes ((htext t).1 rfl), Option.map_some, String.ofList_toList]
      | none =>
        rw [Option.map_eq_none_iff, Option.eq_none_iff_forall_ne_some]
        intro cs hcs
        have hnone := (htext (String.ofList cs)).2
        rw [String.toList_ofList] at hnone
        cases hnone (denotes_of_pieceText? hcs)
    simp [hdenoted]
  | openBrace => exact ⟨_, _, rfl, rfl, rfl⟩
  | closeBrace => exact ⟨_, _, rfl, rfl, rfl⟩
  | openBracket => exact ⟨_, _, rfl, rfl, rfl⟩
  | closeBracket => exact ⟨_, _, rfl, rfl, rfl⟩
  | comma => exact ⟨_, _, rfl, rfl, rfl⟩
  | colon => exact ⟨_, _, rfl, rfl, rfl⟩
  | null => exact ⟨_, _, rfl, rfl, rfl⟩
  | isTrue => exact ⟨_, _, rfl, rfl, rfl⟩
  | isFalse => exact ⟨_, _, rfl, rfl, rfl⟩

end Json
end MatrixAudit
