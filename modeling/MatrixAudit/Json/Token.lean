import MatrixAudit.Json.Value

/-!
# JSON tokens

The characters of a JSON text fall into tokens with blanks between them. `lex` gives the tokens of a
text, and nothing when some character belongs to none.
-/

namespace MatrixAudit

namespace Json

/-- The smallest parts of a text that mean something. -/
inductive Token where
  | openBrace
  | closeBrace
  | openBracket
  | closeBracket
  | comma
  | colon
  | null
  | bool (value : Bool)
  | number (value : JsonNumber)
  | string (text : Option String)
deriving DecidableEq

def isGap (c : Char) : Bool := c = ' ' || c = '\n' || c = '\t' || c = '\r'

/-- A part of a string literal: a character, or an escaped code unit of sixteen bits. -/
inductive Piece where
  | char (c : Char)
  | unit (code : Nat)
deriving DecidableEq

def hexValue? (c : Char) : Option Nat :=
  if '0' ≤ c ∧ c ≤ '9' then some (c.toNat - 48)
  else if 'a' ≤ c ∧ c ≤ 'f' then some (c.toNat - 87)
  else if 'A' ≤ c ∧ c ≤ 'F' then some (c.toNat - 55)
  else none

def codeUnit? (a b c d : Char) : Option Nat := do
  return ((← hexValue? a) * 16 + (← hexValue? b)) * 256 + (← hexValue? c) * 16 + (← hexValue? d)

def escaped? : Char → Option Char
  | '"' => some '"'
  | '\\' => some '\\'
  | '/' => some '/'
  | 'b' => some '\x08'
  | 'f' => some '\x0c'
  | 'n' => some '\n'
  | 'r' => some '\r'
  | 't' => some '\t'
  | _ => none

/-- The rest of a string literal behind its opening quote, up to its closing one, and what follows.
Control characters have to be escaped. -/
def pieces? : List Char → Option (List Piece × List Char)
  | '"' :: rest => some ([], rest)
  | '\\' :: 'u' :: a :: b :: c :: d :: rest => do
    let code ← codeUnit? a b c d
    let (more, rest) ← pieces? rest
    return (.unit code :: more, rest)
  | '\\' :: e :: rest => do
    let c ← escaped? e
    let (more, rest) ← pieces? rest
    return (.char c :: more, rest)
  | c :: rest =>
    if c = '\\' ∨ c.toNat < 32 then none
    else do
      let (more, rest) ← pieces? rest
      return (.char c :: more, rest)
  | [] => none

/-- The first half of a surrogate pair. -/
def isLeading (code : Nat) : Bool := 0xD800 ≤ code && code < 0xDC00

/-- The second half of a surrogate pair. -/
def isTrailing (code : Nat) : Bool := 0xDC00 ≤ code && code < 0xE000

/-- The text that some pieces denote. Surrogates have to stand in pairs. -/
def pieceText? : List Piece → Option (List Char)
  | [] => some []
  | .char c :: rest => (pieceText? rest).map (c :: ·)
  | .unit lead :: .unit trail :: rest =>
    if isLeading lead then
      if isTrailing trail then
        (pieceText? rest).map
          (Char.ofNat (0x10000 + (lead - 0xD800) * 0x400 + (trail - 0xDC00)) :: ·)
      else none
    else if isTrailing lead then none
    else (pieceText? (.unit trail :: rest)).map (Char.ofNat lead :: ·)
  | .unit code :: rest =>
    if isLeading code || isTrailing code then none
    else (pieceText? rest).map (Char.ofNat code :: ·)

/-- The integer part of a number: digits, of which the first is zero only if it is alone. -/
def whole? (cs : List Char) : Option (List Char × List Char) :=
  match cs.takeWhile Char.isDigit with
  | [] => none
  | '0' :: _ :: _ => none
  | digits => some (digits, cs.dropWhile Char.isDigit)

def afterDigits? (cs : List Char) : Option (List Char) :=
  if (cs.takeWhile Char.isDigit).isEmpty then none else some (cs.dropWhile Char.isDigit)

/-- What follows a fraction, and whether there is one. -/
def fraction? : List Char → Option (Bool × List Char)
  | '.' :: rest => (afterDigits? rest).map (true, ·)
  | cs => some (false, cs)

def afterSign : List Char → List Char
  | '+' :: rest => rest
  | '-' :: rest => rest
  | cs => cs

/-- What follows an exponent, and whether there is one. -/
def exponent? : List Char → Option (Bool × List Char)
  | 'e' :: rest => (afterDigits? (afterSign rest)).map (true, ·)
  | 'E' :: rest => (afterDigits? (afterSign rest)).map (true, ·)
  | cs => some (false, cs)

def number? (negative : Bool) (cs : List Char) : Option (Token × List Char) := do
  let (digits, rest) ← whole? cs
  let (hasFraction, rest) ← fraction? rest
  let (hasExponent, rest) ← exponent? rest
  if hasFraction || hasExponent then return (.number .fractional, rest)
  else return (.number (.integer negative (Nat.ofDigitChars 10 digits 0)), rest)

/-- The token that starts with the given character, and what follows it. -/
def lexeme? : Char → List Char → Option (Token × List Char)
  | '{', rest => some (.openBrace, rest)
  | '}', rest => some (.closeBrace, rest)
  | '[', rest => some (.openBracket, rest)
  | ']', rest => some (.closeBracket, rest)
  | ',', rest => some (.comma, rest)
  | ':', rest => some (.colon, rest)
  | 'n', 'u' :: 'l' :: 'l' :: rest => some (.null, rest)
  | 't', 'r' :: 'u' :: 'e' :: rest => some (.bool true, rest)
  | 'f', 'a' :: 'l' :: 's' :: 'e' :: rest => some (.bool false, rest)
  | '"', rest => do
    let (parts, rest) ← pieces? rest
    return (.string ((pieceText? parts).map String.ofList), rest)
  | '-', rest => number? true rest
  | c, rest => if c.isDigit then number? false (c :: rest) else none

theorem length_dropWhile_le {α : Type} (p : α → Bool) (xs : List α) :
    (xs.dropWhile p).length ≤ xs.length := by
  induction xs with
  | nil => simp
  | cons x xs ih =>
    rw [List.dropWhile_cons]
    split
    · exact Nat.le_succ_of_le ih
    · exact Nat.le_refl _

theorem length_of_pieces? {cs rest : List Char} {parts : List Piece}
    (h : pieces? cs = some (parts, rest)) : rest.length < cs.length := by
  fun_induction pieces? cs generalizing parts rest with
  | case1 tail =>
    simp only [Option.some.injEq, Prod.mk.injEq] at h
    simp [h.2]
  | case2 a b c d tail ih =>
    simp only [Option.bind_eq_bind, Option.bind_eq_some_iff, Prod.exists, Option.pure_def,
      Option.some.injEq, Prod.mk.injEq] at h
    obtain ⟨_, _, _, _, inner, _, rfl⟩ := h
    have := ih inner
    simp only [List.length_cons]
    omega
  | case3 e tail _ ih =>
    simp only [Option.bind_eq_bind, Option.bind_eq_some_iff, Prod.exists, Option.pure_def,
      Option.some.injEq, Prod.mk.injEq] at h
    obtain ⟨_, _, _, _, inner, _, rfl⟩ := h
    have := ih inner
    simp only [List.length_cons]
    omega
  | case4 c tail => simp at h
  | case5 c tail _ _ _ _ ih =>
    simp only [Option.bind_eq_bind, Option.bind_eq_some_iff, Prod.exists, Option.pure_def,
      Option.some.injEq, Prod.mk.injEq] at h
    obtain ⟨_, _, inner, _, rfl⟩ := h
    have := ih inner
    simp only [List.length_cons]
    omega
  | case6 => simp at h

theorem length_of_whole? {cs digits rest : List Char} (h : whole? cs = some (digits, rest)) :
    rest.length < cs.length := by
  unfold whole? at h
  split at h
  · simp at h
  · simp at h
  · rename_i found nonempty _
    simp only [Option.some.injEq, Prod.mk.injEq] at h
    obtain ⟨_, rfl⟩ := h
    cases cs with
    | nil => simp at nonempty
    | cons c cs =>
      have first : c.isDigit = true := by
        cases digit : c.isDigit with
        | true => rfl
        | false => exact (nonempty (by rw [List.takeWhile_cons]; simp [digit])).elim
      rw [List.dropWhile_cons, if_pos first, List.length_cons]
      exact Nat.lt_succ_of_le (length_dropWhile_le _ _)

theorem length_of_afterDigits? {cs rest : List Char} (h : afterDigits? cs = some rest) :
    rest.length ≤ cs.length := by
  unfold afterDigits? at h
  split at h
  · simp at h
  · simp only [Option.some.injEq] at h
    exact h ▸ length_dropWhile_le _ _

theorem length_of_fraction? {cs rest : List Char} {found : Bool}
    (h : fraction? cs = some (found, rest)) : rest.length ≤ cs.length := by
  unfold fraction? at h
  split at h
  · simp only [Option.map_eq_some_iff, Prod.mk.injEq] at h
    obtain ⟨_, digits, _, rfl⟩ := h
    exact Nat.le_succ_of_le (length_of_afterDigits? digits)
  · simp only [Option.some.injEq, Prod.mk.injEq] at h
    exact h.2 ▸ Nat.le_refl _

theorem length_afterSign_le (cs : List Char) : (afterSign cs).length ≤ cs.length := by
  unfold afterSign
  split <;> simp

theorem length_of_exponent? {cs rest : List Char} {found : Bool}
    (h : exponent? cs = some (found, rest)) : rest.length ≤ cs.length := by
  have signed : ∀ {tail : List Char}, (afterDigits? (afterSign tail)).map (true, ·) =
      some (found, rest) → rest.length ≤ tail.length + 1 := by
    intro tail eq
    simp only [Option.map_eq_some_iff, Prod.mk.injEq] at eq
    obtain ⟨_, digits, _, rfl⟩ := eq
    have := length_of_afterDigits? digits
    have := length_afterSign_le tail
    omega
  unfold exponent? at h
  split at h
  · exact signed h
  · exact signed h
  · simp only [Option.some.injEq, Prod.mk.injEq] at h
    exact h.2 ▸ Nat.le_refl _

theorem length_of_number? {negative : Bool} {cs rest : List Char} {token : Token}
    (h : number? negative cs = some (token, rest)) : rest.length < cs.length := by
  simp only [number?, Option.bind_eq_bind, Option.bind_eq_some_iff, Prod.exists] at h
  obtain ⟨_, _, digits, _, _, fraction, _, tail, exponent, last⟩ := h
  have := length_of_whole? digits
  have := length_of_fraction? fraction
  have := length_of_exponent? exponent
  have same : tail = rest := by
    split at last <;> exact (Prod.mk.inj (Option.some.inj last)).2
  rw [← same]
  omega

theorem length_of_lexeme? {c : Char} {cs rest : List Char} {token : Token}
    (h : lexeme? c cs = some (token, rest)) : rest.length ≤ cs.length := by
  unfold lexeme? at h
  split at h
  case h_10 =>
    simp only [Option.bind_eq_bind, Option.bind_eq_some_iff, Prod.exists, Option.pure_def,
      Option.some.injEq, Prod.mk.injEq] at h
    obtain ⟨_, _, inner, _, rfl⟩ := h
    exact Nat.le_of_lt (length_of_pieces? inner)
  case h_11 => exact Nat.le_of_lt (length_of_number? h)
  case h_12 =>
    split at h
    · exact Nat.le_of_lt_succ (length_of_number? h)
    · simp at h
  all_goals
    obtain ⟨_, rfl⟩ := Prod.mk.inj (Option.some.inj h)
    grind

def lex : List Char → Option (List Token)
  | [] => some []
  | c :: cs =>
    if isGap c then lex cs
    else
      match _lexeme : lexeme? c cs with
      | some (token, rest) => (lex rest).map (token :: ·)
      | none => none
termination_by cs => cs.length
decreasing_by
  · simp
  · have := length_of_lexeme? _lexeme
    simp only [List.length_cons]
    omega

end Json

end MatrixAudit
