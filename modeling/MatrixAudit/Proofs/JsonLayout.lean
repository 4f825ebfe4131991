import MatrixAudit.Json.Parser
import MatrixAudit.Json.Printer
import MatrixAudit.Proofs.JsonLiterals

/-!
# Texts of a JSON value

A value has one sequence of tokens. Its texts are the layouts of these tokens: each spelled in some
way, with any gaps between them. Every such text is read as the value, and the compact and the
pretty text are two of them, so neither loses anything.
-/

namespace MatrixAudit
namespace Json

/-- The tokens, in order, with gaps anywhere between them and around. A number is kept apart from a
digit behind it. -/
inductive Layout : List Token → List Char → Prop
  | done : Layout [] []
  | gap {c : Char} {tokens : List Token} {rest : List Char} (hgap : isGap c = true)
    (more : Layout tokens rest) : Layout tokens (c :: rest)
  | token {token : Token} {tokens : List Token} {text rest : List Char}
    (spelled : token.Spelled text) (apart : token.IsNumber → NoDigit rest)
    (more : Layout tokens rest) : Layout (token :: tokens) (text ++ rest)

section Lexing

variable {c : Char} {cs rest : List Char} {token : Token} {tokens : List Token}

lemma lex_cons_of_isGap (h : isGap c = true) : lex (c :: cs) = lex cs := by
  rw [lex, if_pos h]

lemma lex_cons_of_lexeme? (hgap : isGap c = false) (h : lexeme? c cs = some (token, rest)) :
    lex (c :: cs) = (lex rest).map (token :: ·) := by
  rw [lex, if_neg (by rw [hgap]; exact Bool.false_ne_true)]
  split
  · rename_i heq
    rw [h] at heq
    cases heq
    rfl
  · rename_i heq
    rw [h] at heq
    cases heq

lemma lex_cons_of_none (hgap : isGap c = false) (h : lexeme? c cs = none) :
    lex (c :: cs) = none := by
  rw [lex, if_neg (by rw [hgap]; exact Bool.false_ne_true)]
  split
  · rename_i heq
    rw [h] at heq
    cases heq
  · rfl

/-- No token starts as a fraction or an exponent does. -/
lemma endsNumber_of_lex (h : lex cs = some tokens) (hdigit : NoDigit cs) : EndsNumber cs := by
  have hne : ∀ c ∈ cs.head?, isGap c = false → (∀ rest, lexeme? c rest = none) → False := by
    rintro c hc hgap hnone
    obtain ⟨rest, rfl⟩ := List.head?_eq_some_iff.1 hc
    rw [lex_cons_of_none hgap (hnone rest)] at h
    cases h
  refine ⟨hdigit, ?_, ?_⟩
  · rintro c hc rfl
    exact hne '.' hc rfl fun _ => rfl
  · refine fun c hc => ⟨?_, ?_⟩
    · rintro rfl
      exact hne 'e' hc rfl fun _ => rfl
    · rintro rfl
      exact hne 'E' hc rfl fun _ => rfl

theorem lex_of_layout (h : Layout tokens cs) : lex cs = some tokens := by
  induction h with
  | done => rw [lex]
  | gap hgap more ih => rw [lex_cons_of_isGap hgap, ih]
  | token spelled apart more ih =>
    obtain ⟨c, cs, rfl, hgap, hlexeme⟩ := lexeme?_of_spelled spelled fun hnumber =>
      endsNumber_of_lex ih (apart hnumber)
    rw [List.cons_append, lex_cons_of_lexeme? hgap hlexeme, ih, Option.map_some]

end Lexing

mutual

/-- The tokens of a value. -/
def tokens : Json → List Token
  | .null => [.null]
  | .bool value => [.bool value]
  | .number value => [.number value]
  | .string text => [.string text]
  | .array [] => [.openBracket, .closeBracket]
  | .array (first :: rest) => .openBracket :: (first.tokens ++ elementTokens rest)
  | .object [] => [.openBrace, .closeBrace]
  | .object ((key, value) :: rest) =>
    .openBrace :: .string key :: .colon :: (value.tokens ++ memberTokens rest)

/-- The tokens of the further elements of an array, and of its end. -/
def elementTokens : List Json → List Token
  | [] => [.closeBracket]
  | next :: rest => .comma :: (next.tokens ++ elementTokens rest)

/-- The tokens of the further members of an object, and of its end. -/
def memberTokens : List (Option String × Json) → List Token
  | [] => [.closeBrace]
  | (key, value) :: rest => .comma :: .string key :: .colon :: (value.tokens ++ memberTokens rest)

end

section Parsing

/-- A state in which a value may begin. -/
def State.Awaits (state : State) (outer : List Frame) : Prop :=
  ∀ token, token ≠ .closeBracket → state.step token = State.begin outer token

lemma awaits_wantValue (outer : List Frame) : (State.wantValue outer).Awaits outer :=
  fun _ _ => rfl

lemma awaits_firstElement (outer : List Frame) :
    (State.firstElement outer).Awaits (.array [] :: outer) := by
  intro token h
  rw [State.step]
  exact h

lemma foldlM_step {state next : State} {token : Token} (h : state.step token = some next)
    (rest : List Token) :
    (token :: rest).foldlM State.step state = rest.foldlM State.step next := by
  rw [List.foldlM_cons, h]
  rfl

mutual

/-- The tokens of a value take the machine to the state behind it. -/
lemma run_tokens (value : Json) {state : State} {outer : List Frame} (h : state.Awaits outer)
    (rest : List Token) :
    (value.tokens ++ rest).foldlM State.step state =
      rest.foldlM State.step (State.after value outer) := by
  match value with
  | .null => exact foldlM_step (h .null nofun) rest
  | .bool value => exact foldlM_step (h (.bool value) nofun) rest
  | .number value => exact foldlM_step (h (.number value) nofun) rest
  | .string text => exact foldlM_step (h (.string text) nofun) rest
  | .array [] =>
    rw [tokens, List.cons_append, foldlM_step (h .openBracket nofun)]
    exact foldlM_step rfl rest
  | .array (first :: more) =>
    rw [tokens, List.cons_append, foldlM_step (h .openBracket nofun), List.append_assoc,
      run_tokens first (awaits_firstElement outer)]
    exact run_elementTokens more [first] outer rest
  | .object [] =>
    rw [tokens, List.cons_append, foldlM_step (h .openBrace nofun)]
    exact foldlM_step rfl rest
  | .object ((key, first) :: more) =>
    rw [tokens, List.cons_append, foldlM_step (h .openBrace nofun), List.cons_append,
      List.cons_append, foldlM_step rfl, foldlM_step rfl, List.append_assoc,
      run_tokens first (awaits_wantValue (.object [] key :: outer))]
    exact run_memberTokens more [(key, first)] outer rest

lemma run_elementTokens (more done : List Json) (outer : List Frame) (rest : List Token) :
    (elementTokens more ++ rest).foldlM State.step (.afterElement done outer) =
      rest.foldlM State.step (State.after (.array (done.reverse ++ more)) outer) := by
  match more with
  | [] =>
    rw [List.append_nil]
    exact foldlM_step rfl rest
  | next :: more =>
    rw [elementTokens, List.cons_append, foldlM_step rfl, List.append_assoc,
      run_tokens next (awaits_wantValue (.array done :: outer))]
    have hmore := run_elementTokens more (next :: done) outer rest
    rw [List.reverse_cons, List.append_assoc, List.singleton_append] at hmore
    exact hmore

lemma run_memberTokens (more done : List (Option String × Json)) (outer : List Frame)
    (rest : List Token) :
    (memberTokens more ++ rest).foldlM State.step (.afterMember done outer) =
      rest.foldlM State.step (State.after (.object (done.reverse ++ more)) outer) := by
  match more with
  | [] =>
    rw [List.append_nil]
    exact foldlM_step rfl rest
  | (key, next) :: more =>
    rw [memberTokens, List.cons_append, List.cons_append, List.cons_append, foldlM_step rfl,
      foldlM_step rfl, foldlM_step rfl, List.append_assoc,
      run_tokens next (awaits_wantValue (.object done key :: outer))]
    have hmore := run_memberTokens more ((key, next) :: done) outer rest
    rw [List.reverse_cons, List.append_assoc, List.singleton_append] at hmore
    exact hmore

end

theorem ofTokens?_tokens (value : Json) : ofTokens? value.tokens = some value := by
  have hrun := run_tokens value (awaits_wantValue []) []
  rw [List.append_nil] at hrun
  rw [ofTokens?, hrun]
  rfl

/-- Every layout of a value's tokens is read as the value. -/
theorem parse?_of_layout {value : Json} {text : String} (h : Layout value.tokens text.toList) :
    parse? text = some value := by
  rw [parse?, lex_of_layout h, Option.bind_some, ofTokens?_tokens]

end Parsing

section Printing

lemma head?_toDigits_ne_zero {n : ℕ} (h : n ≠ 0) : (Nat.toDigits 10 n).head? ≠ some '0' := by
  induction n using Nat.strong_induction_on with
  | _ n ih =>
    by_cases hlt : n < 10
    · rw [Nat.toDigits_of_lt_base hlt]
      intro hzero
      exact h (Nat.zero_eq_digitChar.1 (Option.some.inj hzero).symm)
    · have hfront := ih (n / 10) (by omega) (by omega)
      rw [Nat.toDigits_of_base_le (by decide) (Nat.le_of_not_lt hlt)]
      obtain ⟨c, cs, hcons⟩ := List.exists_cons_of_ne_nil (Nat.toDigits_ne_nil (n := n / 10) (b := 10))
      rw [hcons] at hfront ⊢
      exact hfront

lemma wholeNumber_toDigits (n : ℕ) : WholeNumber (Nat.toDigits 10 n) := by
  refine ⟨⟨Nat.toDigits_ne_nil, fun c hc => ?_⟩, fun hzero => ?_⟩
  · exact Nat.isDigit_of_mem_toDigits (by decide) (Nat.le_refl _) hc
  · by_cases h : n = 0
    · rw [h]
      rfl
    · exact absurd hzero (head?_toDigits_ne_zero h)

lemma spelled_numeral (value : JsonNumber) : (Token.number value).Spelled (numeral value) := by
  match value with
  | .integer negative magnitude =>
    have hspelled := @Token.Spelled.number negative _ _ _ (wholeNumber_toDigits magnitude)
      .absent .absent
    rw [literalNumber, if_pos ⟨rfl, rfl⟩, Nat.ofDigitChars_ten_toDigits, List.append_nil,
      List.append_nil] at hspelled
    cases negative <;> exact hspelled
  | .fractional =>
    have hzero : WholeNumber ['0'] := wholeNumber_toDigits 0
    exact @Token.Spelled.number false _ _ _ hzero (.point hzero.digits) .absent

lemma denotes_cons_of_lt {c : Char} (h : c.toNat < 32) {parts : List Piece} {text : List Char}
    (more : Denotes parts text) : Denotes (.unit c.toNat :: parts) (c :: text) := by
  have hleading : isLeading c.toNat = false := by
    rw [isLeading, Bool.and_eq_false_iff, decide_eq_false_iff_not]
    omega
  have htrailing : isTrailing c.toNat = false := by
    rw [isTrailing, Bool.and_eq_false_iff, decide_eq_false_iff_not]
    omega
  have hunit := Denotes.unit hleading htrailing more
  rwa [Char.ofNat_toNat] at hunit

/-- An escaped character is one part of a literal, and it denotes the character. -/
lemma exists_piece_escape (c : Char) : ∃ piece : Piece, piece.Spelled (escape c) ∧
    ∀ parts text, Denotes parts text → Denotes (piece :: parts) (c :: text) := by
  have hchar : ∀ parts text, Denotes parts text → Denotes (.char c :: parts) (c :: text) :=
    fun _ _ more => .char more
  unfold escape
  split_ifs with hquote hbackslash hb ht hn hf hr hcontrol
  · exact ⟨.char c, .short (by rw [hquote]; rfl), hchar⟩
  · exact ⟨.char c, .short (by rw [hbackslash]; rfl), hchar⟩
  · exact ⟨.char c, .short (by rw [hb]; rfl), hchar⟩
  · exact ⟨.char c, .short (by rw [ht]; rfl), hchar⟩
  · exact ⟨.char c, .short (by rw [hn]; rfl), hchar⟩
  · exact ⟨.char c, .short (by rw [hf]; rfl), hchar⟩
  · exact ⟨.char c, .short (by rw [hr]; rfl), hchar⟩
  · refine ⟨.unit c.toNat, ?_, fun _ _ more => denotes_cons_of_lt hcontrol more⟩
    have hzero : HexDigit '0' 0 := ⟨by decide, Or.inl rfl⟩
    have hspelled := Piece.Spelled.unit hzero hzero
      ⟨by omega, Or.inl (Eq.refl (Nat.digitChar (c.toNat / 16)))⟩
      ⟨by omega, Or.inl (Eq.refl (Nat.digitChar (c.toNat % 16)))⟩
    have hcode : 0 * 4096 + 0 * 256 + c.toNat / 16 * 16 + c.toNat % 16 = c.toNat := by omega
    rwa [hcode] at hspelled
  · exact ⟨.char c, .plain hquote hbackslash (Nat.le_of_not_lt hcontrol), hchar⟩

lemma exists_pieces_escape (text : List Char) :
    ∃ parts, SpelledPieces parts (text.flatMap escape) ∧ Denotes parts text := by
  induction text with
  | nil => exact ⟨[], .nil, .nil⟩
  | cons c text ih =>
    obtain ⟨parts, hspelled, hdenotes⟩ := ih
    obtain ⟨piece, hpiece, hmore⟩ := exists_piece_escape c
    exact ⟨piece :: parts, .cons hpiece hspelled, hmore parts text hdenotes⟩

lemma Denotes.unique {parts : List Piece} {first second : List Char} (h : Denotes parts first)
    (h' : Denotes parts second) : first = second :=
  Option.some.inj ((pieceText?_of_denotes h).symm.trans (pieceText?_of_denotes h'))

lemma spelled_quoted (text : Option String) : (Token.string text).Spelled (quoted text) := by
  cases text with
  | some text =>
    obtain ⟨parts, hspelled, hdenotes⟩ := exists_pieces_escape text.toList
    refine .string hspelled fun t => ⟨?_, fun h => ?_⟩
    · rintro ⟨rfl⟩
      exact hdenotes
    · rw [String.toList_injective (hdenotes.unique h)]
  | none =>
    -- the first half of a pair stands alone
    have hspelled : SpelledPieces [.unit 0xD800] ['\\', 'u', 'd', '8', '0', '0'] :=
      .cons (.unit (w := 13) (x := 8) (y := 0) (z := 0) ⟨by decide, Or.inl rfl⟩
        ⟨by decide, Or.inl rfl⟩ ⟨by decide, Or.inl rfl⟩ ⟨by decide, Or.inl rfl⟩) .nil
    refine .string hspelled fun t => ⟨nofun, fun h => ?_⟩
    have hnone := pieceText?_of_denotes h
    cases hnone

variable {tokens : List Token} {rest : List Char}

lemma Layout.mark {token : Token} {text : List Char} (spelled : token.Spelled text)
    (h : ¬token.IsNumber) (more : Layout tokens rest) :
    Layout (token :: tokens) (text ++ rest) := .token spelled (fun hnumber => absurd hnumber h) more

lemma Layout.gaps {gap : List Char} (hgap : ∀ c ∈ gap, isGap c = true) (more : Layout tokens rest) :
    Layout tokens (gap ++ rest) := by
  induction gap with
  | nil => exact more
  | cons c gap ih =>
    exact .gap (hgap c List.mem_cons_self) (ih fun c hc => hgap c (List.mem_cons_of_mem _ hc))

lemma noDigit_compactElements (elements : List Json) (rest : List Char) :
    NoDigit (compactElements elements ++ rest) := by
  cases elements <;> rintro _ ⟨rfl⟩ <;> rfl

lemma noDigit_compactMembers (members : List (Option String × Json)) (rest : List Char) :
    NoDigit (compactMembers members ++ rest) := by
  obtain _ | ⟨⟨key, value⟩, members⟩ := members <;> rintro _ ⟨rfl⟩ <;> rfl

mutual

lemma layout_compactChars (value : Json) {tokens : List Token} {rest : List Char}
    (more : Layout tokens rest) (apart : NoDigit rest) :
    Layout (value.tokens ++ tokens) (compactChars value ++ rest) := by
  match value with
  | .null => exact .mark .null nofun more
  | .bool true => exact .mark .isTrue nofun more
  | .bool false => exact .mark .isFalse nofun more
  | .number value => exact .token (spelled_numeral value) (fun _ => apart) more
  | .string text => exact .mark (spelled_quoted text) nofun more
  | .array [] =>
    change Layout _ (['['] ++ ([']'] ++ rest))
    exact .mark .openBracket nofun (.mark .closeBracket nofun more)
  | .array (first :: elements) =>
    simp only [Json.tokens, compactChars, List.cons_append, List.append_assoc]
    apply Layout.mark .openBracket nofun
    apply layout_compactChars first _ (noDigit_compactElements _ _)
    exact layout_compactElements elements more
  | .object [] =>
    change Layout _ (['{'] ++ (['}'] ++ rest))
    exact .mark .openBrace nofun (.mark .closeBrace nofun more)
  | .object ((key, first) :: members) =>
    simp only [Json.tokens, compactChars, List.cons_append, List.append_assoc]
    apply Layout.mark .openBrace nofun
    apply Layout.mark (spelled_quoted key) nofun
    apply Layout.mark .colon nofun
    apply layout_compactChars first _ (noDigit_compactMembers _ _)
    exact layout_compactMembers members more

lemma layout_compactElements (elements : List Json) {tokens : List Token} {rest : List Char}
    (more : Layout tokens rest) :
    Layout (elementTokens elements ++ tokens) (compactElements elements ++ rest) := by
  match elements with
  | [] => exact .mark .closeBracket nofun more
  | next :: elements =>
    simp only [elementTokens, compactElements, List.cons_append, List.append_assoc]
    apply Layout.mark .comma nofun
    apply layout_compactChars next _ (noDigit_compactElements _ _)
    exact layout_compactElements elements more

lemma layout_compactMembers (members : List (Option String × Json)) {tokens : List Token}
    {rest : List Char} (more : Layout tokens rest) :
    Layout (memberTokens members ++ tokens) (compactMembers members ++ rest) := by
  match members with
  | [] => exact .mark .closeBrace nofun more
  | (key, next) :: members =>
    simp only [memberTokens, compactMembers, List.cons_append, List.append_assoc]
    apply Layout.mark .comma nofun
    apply Layout.mark (spelled_quoted key) nofun
    apply Layout.mark .colon nofun
    apply layout_compactChars next _ (noDigit_compactMembers _ _)
    exact layout_compactMembers members more

end

lemma isGap_of_mem_newLine {depth : ℕ} : ∀ c ∈ newLine depth, isGap c = true := by
  intro c hc
  rw [newLine, List.mem_cons, List.mem_replicate] at hc
  rcases hc with rfl | ⟨-, rfl⟩ <;> rfl

lemma noDigit_prettyElements (depth : ℕ) (elements : List Json) (rest : List Char) :
    NoDigit (prettyElements depth elements ++ rest) := by
  cases elements <;> rintro _ ⟨rfl⟩ <;> rfl

lemma noDigit_prettyMembers (depth : ℕ) (members : List (Option String × Json))
    (rest : List Char) : NoDigit (prettyMembers depth members ++ rest) := by
  obtain _ | ⟨⟨key, value⟩, members⟩ := members <;> rintro _ ⟨rfl⟩ <;> rfl

mutual

lemma layout_prettyChars (value : Json) (depth : ℕ) {tokens : List Token} {rest : List Char}
    (more : Layout tokens rest) (apart : NoDigit rest) :
    Layout (value.tokens ++ tokens) (prettyChars depth value ++ rest) := by
  match value with
  | .null => exact .mark .null nofun more
  | .bool true => exact .mark .isTrue nofun more
  | .bool false => exact .mark .isFalse nofun more
  | .number value => exact .token (spelled_numeral value) (fun _ => apart) more
  | .string text => exact .mark (spelled_quoted text) nofun more
  | .array [] =>
    change Layout _ (['['] ++ ([']'] ++ rest))
    exact .mark .openBracket nofun (.mark .closeBracket nofun more)
  | .array (first :: elements) =>
    simp only [Json.tokens, prettyChars, List.cons_append, List.append_assoc]
    apply Layout.mark .openBracket nofun
    apply Layout.gaps isGap_of_mem_newLine
    apply layout_prettyChars first (depth + 1) _ (noDigit_prettyElements _ _ _)
    exact layout_prettyElements elements depth more
  | .object [] =>
    change Layout _ (['{'] ++ (['}'] ++ rest))
    exact .mark .openBrace nofun (.mark .closeBrace nofun more)
  | .object ((key, first) :: members) =>
    simp only [Json.tokens, prettyChars, List.cons_append, List.append_assoc]
    apply Layout.mark .openBrace nofun
    apply Layout.gaps isGap_of_mem_newLine
    apply Layout.mark (spelled_quoted key) nofun
    apply Layout.mark .colon nofun
    apply Layout.gap rfl
    apply layout_prettyChars first (depth + 1) _ (noDigit_prettyMembers _ _ _)
    exact layout_prettyMembers members depth more

lemma layout_prettyElements (elements : List Json) (depth : ℕ) {tokens : List Token}
    {rest : List Char} (more : Layout tokens rest) :
    Layout (elementTokens elements ++ tokens) (prettyElements depth elements ++ rest) := by
  match elements with
  | [] =>
    rw [prettyElements, List.append_assoc]
    exact .gaps isGap_of_mem_newLine (.mark .closeBracket nofun more)
  | next :: elements =>
    simp only [elementTokens, prettyElements, List.cons_append, List.append_assoc]
    apply Layout.mark .comma nofun
    apply Layout.gaps isGap_of_mem_newLine
    apply layout_prettyChars next (depth + 1) _ (noDigit_prettyElements _ _ _)
    exact layout_prettyElements elements depth more

lemma layout_prettyMembers (members : List (Option String × Json)) (depth : ℕ)
    {tokens : List Token} {rest : List Char} (more : Layout tokens rest) :
    Layout (memberTokens members ++ tokens) (prettyMembers depth members ++ rest) := by
  match members with
  | [] =>
    rw [prettyMembers, List.append_assoc]
    exact .gaps isGap_of_mem_newLine (.mark .closeBrace nofun more)
  | (key, next) :: members =>
    simp only [memberTokens, prettyMembers, List.cons_append, List.append_assoc]
    apply Layout.mark .comma nofun
    apply Layout.gaps isGap_of_mem_newLine
    apply Layout.mark (spelled_quoted key) nofun
    apply Layout.mark .colon nofun
    apply Layout.gap rfl
    apply layout_prettyChars next (depth + 1) _ (noDigit_prettyMembers _ _ _)
    exact layout_prettyMembers members depth more

end

lemma noDigit_nil : NoDigit [] := nofun

theorem layout_compact (value : Json) : Layout value.tokens value.compact.toList := by
  have hlayout := layout_compactChars value .done noDigit_nil
  rwa [List.append_nil, List.append_nil, ← String.toList_ofList (l := compactChars value)]
    at hlayout

theorem layout_pretty (value : Json) : Layout value.tokens value.pretty.toList := by
  have hlayout := layout_prettyChars value 0 .done noDigit_nil
  rwa [List.append_nil, List.append_nil, ← String.toList_ofList (l := prettyChars 0 value)]
    at hlayout

/-- The compact text of a value loses nothing. -/
theorem parse?_compact (value : Json) : parse? value.compact = some value :=
  parse?_of_layout (layout_compact value)

/-- Nor does the pretty text. -/
theorem parse?_pretty (value : Json) : parse? value.pretty = some value :=
  parse?_of_layout (layout_pretty value)

end Printing

end Json
end MatrixAudit
