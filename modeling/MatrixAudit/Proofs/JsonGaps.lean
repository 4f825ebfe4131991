import MatrixAudit.Proofs.JsonLayout

/-!
# Gaps in JSON texts

The pretty text of a value is its compact text with blanks and line ends put in. Taking all of these
out again gives the compact text, unless a literal has blanks of its own. Each of the two texts
belongs to one value.
-/

namespace MatrixAudit
namespace Json

theorem compact_injective : Function.Injective compact := by
  intro first second h
  have hparse := parse?_compact first
  rw [h, parse?_compact] at hparse
  exact (Option.some.inj hparse).symm

theorem pretty_injective : Function.Injective pretty := by
  intro first second h
  have hparse := parse?_pretty first
  rw [h, parse?_pretty] at hparse
  exact (Option.some.inj hparse).symm

/-- A text without its blanks and line ends. -/
def bare (text : List Char) : List Char := text.filter fun c => c ≠ ' ' && c ≠ '\n'

section Bare

variable {c : Char} {text : List Char}

@[simp] lemma bare_append (first second : List Char) :
    bare (first ++ second) = bare first ++ bare second := List.filter_append ..

lemma bare_eq_self_iff : bare text = text ↔ ∀ c ∈ text, c ≠ ' ' ∧ c ≠ '\n' := by
  rw [bare, List.filter_eq_self]
  simp

@[simp] lemma bare_cons_blank : bare (' ' :: text) = bare text := rfl

lemma bare_cons (h : c ≠ ' ') (h' : c ≠ '\n') : bare (c :: text) = c :: bare text := by
  rw [bare, List.filter_cons_of_pos (by simp [h, h']), bare]

@[simp] lemma bare_newLine (depth : ℕ) : bare (newLine depth) = [] := by
  rw [bare, List.filter_eq_nil_iff]
  intro c hc
  rw [newLine, List.mem_cons, List.mem_replicate] at hc
  rcases hc with rfl | ⟨-, rfl⟩ <;> decide

end Bare

mutual

/-- The two texts differ in blanks and line ends only. -/
lemma bare_prettyChars (value : Json) (depth : ℕ) :
    bare (prettyChars depth value) = bare (compactChars value) := by
  match value with
  | .null => rfl
  | .bool true => rfl
  | .bool false => rfl
  | .number value => rfl
  | .string text => rfl
  | .array [] => rfl
  | .array (first :: elements) =>
    simp [prettyChars, compactChars, bare_cons, bare_prettyChars first,
      bare_prettyElements elements]
  | .object [] => rfl
  | .object ((key, first) :: members) =>
    simp [prettyChars, compactChars, bare_cons, bare_prettyChars first,
      bare_prettyMembers members]

lemma bare_prettyElements (elements : List Json) (depth : ℕ) :
    bare (prettyElements depth elements) = bare (compactElements elements) := by
  match elements with
  | [] => simp [prettyElements, compactElements]
  | next :: elements =>
    simp [prettyElements, compactElements, bare_cons, bare_prettyChars next,
      bare_prettyElements elements]

lemma bare_prettyMembers (members : List (Option String × Json)) (depth : ℕ) :
    bare (prettyMembers depth members) = bare (compactMembers members) := by
  match members with
  | [] => simp [prettyMembers, compactMembers]
  | (key, next) :: members =>
    simp [prettyMembers, compactMembers, bare_cons, bare_prettyChars next,
      bare_prettyMembers members]

end

/-- No string literal among the tokens has a blank or a line end in it. -/
def Unbroken (tokens : List Token) : Prop :=
  ∀ text, Token.string text ∈ tokens → bare (quoted text) = quoted text

section Unbroken

variable {token : Token} {tokens others : List Token}

@[simp] lemma unbroken_nil : Unbroken [] := by
  intro text h
  cases h

@[simp] lemma unbroken_cons : Unbroken (token :: tokens) ↔
    (∀ text, token = .string text → bare (quoted text) = quoted text) ∧ Unbroken tokens := by
  simp only [Unbroken, List.mem_cons, or_imp, forall_and, eq_comm]

@[simp] lemma unbroken_append :
    Unbroken (tokens ++ others) ↔ Unbroken tokens ∧ Unbroken others := by
  simp only [Unbroken, List.mem_append, or_imp, forall_and]

lemma unbroken_elementTokens {elements : List Json}
    (h : ∀ element ∈ elements, Unbroken element.tokens) : Unbroken (elementTokens elements) := by
  induction elements with
  | nil => simp [elementTokens]
  | cons next elements ih =>
    rw [List.forall_mem_cons] at h
    simp [elementTokens, h.1, ih h.2]

lemma unbroken_memberTokens {members : List (Option String × Json)}
    (h : ∀ member ∈ members, bare (quoted member.1) = quoted member.1 ∧
      Unbroken member.2.tokens) : Unbroken (memberTokens members) := by
  induction members with
  | nil => simp [memberTokens]
  | cons next members ih =>
    rw [List.forall_mem_cons] at h
    simp [memberTokens, h.1, ih h.2]

lemma unbroken_array {elements : List Json}
    (h : ∀ element ∈ elements, Unbroken element.tokens) : Unbroken (array elements).tokens := by
  cases elements with
  | nil => simp [Json.tokens]
  | cons first elements =>
    rw [List.forall_mem_cons] at h
    simp [Json.tokens, h.1, unbroken_elementTokens h.2]

lemma unbroken_record {members : List (String × Json)}
    (h : ∀ member ∈ members, bare (quoted (some member.1)) = quoted (some member.1) ∧
      Unbroken member.2.tokens) : Unbroken (record members).tokens := by
  cases members with
  | nil => simp [record, Json.tokens]
  | cons first members =>
    rw [List.forall_mem_cons] at h
    have hrest : Unbroken (memberTokens (members.map fun member => (some member.1, member.2))) :=
      unbroken_memberTokens (List.forall_mem_map.2 h.2)
    simp [record, Json.tokens, h.1, hrest]

end Unbroken

lemma bare_numeral (value : JsonNumber) : bare (numeral value) = numeral value := by
  have hdigits : ∀ magnitude, bare (Nat.toDigits 10 magnitude) = Nat.toDigits 10 magnitude := by
    intro magnitude
    rw [bare_eq_self_iff]
    intro c hc
    have hdigit := Nat.isDigit_of_mem_toDigits (by decide) (Nat.le_refl _) hc
    refine ⟨?_, ?_⟩
    · rintro rfl
      exact Bool.false_ne_true hdigit
    · rintro rfl
      exact Bool.false_ne_true hdigit
  match value with
  | .integer false magnitude => exact hdigits magnitude
  | .integer true magnitude =>
    rw [numeral, bare_cons (by decide) (by decide), hdigits]
  | .fractional => rfl

mutual

lemma bare_compactChars (value : Json) (h : Unbroken value.tokens) :
    bare (compactChars value) = compactChars value := by
  match value with
  | .null => rfl
  | .bool true => rfl
  | .bool false => rfl
  | .number value => exact bare_numeral value
  | .string text => exact h text List.mem_cons_self
  | .array [] => rfl
  | .array (first :: elements) =>
    simp only [Json.tokens, unbroken_cons, unbroken_append] at h
    simp [compactChars, bare_cons, bare_compactChars first h.2.1,
      bare_compactElements elements h.2.2]
  | .object [] => rfl
  | .object ((key, first) :: members) =>
    simp only [Json.tokens, unbroken_cons, unbroken_append] at h
    simp [compactChars, bare_cons, h.2.1 key, bare_compactChars first h.2.2.2.1,
      bare_compactMembers members h.2.2.2.2]

lemma bare_compactElements (elements : List Json) (h : Unbroken (elementTokens elements)) :
    bare (compactElements elements) = compactElements elements := by
  match elements with
  | [] => rfl
  | next :: elements =>
    simp only [elementTokens, unbroken_cons, unbroken_append] at h
    simp [compactElements, bare_cons, bare_compactChars next h.2.1,
      bare_compactElements elements h.2.2]

lemma bare_compactMembers (members : List (Option String × Json))
    (h : Unbroken (memberTokens members)) :
    bare (compactMembers members) = compactMembers members := by
  match members with
  | [] => rfl
  | (key, next) :: members =>
    simp only [memberTokens, unbroken_cons, unbroken_append] at h
    simp [compactMembers, bare_cons, h.2.1 key, bare_compactChars next h.2.2.2.1,
      bare_compactMembers members h.2.2.2.2]

end

/-- What is left of the pretty text without its blanks and line ends is the compact text. -/
theorem bare_pretty {value : Json} (h : Unbroken value.tokens) :
    bare value.pretty.toList = value.compact.toList := by
  rw [pretty, compact, String.toList_ofList, String.toList_ofList, bare_prettyChars,
    bare_compactChars value h]

end Json
end MatrixAudit
