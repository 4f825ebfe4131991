import Mathlib.Data.List.Infix
import MatrixAudit.Report
import MatrixAudit.Proofs.JsonLayout

/-!
# Texts of a report

A report is saved as JSON and printed line by line. Both texts can be read again, and they say what
the report says: the verdict, the count, the columns if there are any, and the sides and the ends of
an exchange where there was one.
-/

namespace MatrixAudit

/-- The text stays on one line. -/
def OneLine (text : String) : Prop := '\n' ∉ text.toList

instance (text : String) : Decidable (OneLine text) :=
  inferInstanceAs (Decidable ('\n' ∉ text.toList))

section OneLine

variable {first second : String}

lemma OneLine.append (hfirst : OneLine first) (hsecond : OneLine second) :
    OneLine (first ++ second) := by
  unfold OneLine
  rw [String.toList_append, List.mem_append]
  exact not_or.2 ⟨hfirst, hsecond⟩

lemma oneLine_nat (n : ℕ) : OneLine (toString n) := by
  intro h
  rw [Nat.toString_eq_ofList_toDigits, String.toList_ofList] at h
  exact Bool.false_ne_true (Nat.isDigit_of_mem_toDigits (by decide) (Nat.le_refl _) h)

lemma oneLine_word (word : Word) : OneLine (toString word) := oneLine_nat word.toNat

lemma notMem_intercalate {c : Char} {separator : List Char} {pieces : List (List Char)}
    (hseparator : c ∉ separator) (hpieces : ∀ piece ∈ pieces, c ∉ piece) :
    c ∉ separator.intercalate pieces := by
  induction pieces with
  | nil => exact List.not_mem_nil
  | cons first rest ih =>
    rw [List.forall_mem_cons] at hpieces
    cases rest with
    | nil =>
      rw [List.intercalate_singleton]
      exact hpieces.1
    | cons second rest =>
      rw [List.intercalate_cons_cons, List.mem_append, List.mem_append]
      exact not_or.2 ⟨not_or.2 ⟨hpieces.1, hseparator⟩, ih hpieces.2⟩

lemma oneLine_intercalate {separator : String} {texts : List String}
    (hseparator : OneLine separator) (htexts : ∀ text ∈ texts, OneLine text) :
    OneLine (separator.intercalate texts) := by
  unfold OneLine
  rw [String.toList_intercalate]
  exact notMem_intercalate hseparator (List.forall_mem_map.2 htexts)

lemma getLast_suffix_intercalate (separator : List Char) {pieces : List (List Char)}
    (h : pieces ≠ []) : pieces.getLast h <:+ separator.intercalate pieces := by
  induction pieces with
  | nil => exact absurd rfl h
  | cons first rest ih =>
    cases rest with
    | nil =>
      rw [List.intercalate_singleton]
      exact List.suffix_refl _
    | cons second rest =>
      rw [List.intercalate_cons_cons, List.getLast_cons_cons]
      exact (ih (List.cons_ne_nil _ _)).trans (List.suffix_append _ _)

end OneLine

namespace Report

section Json

def members (r : Report) : List (String × Json) :=
  [("role", .text r.role.label), ("mode", .text r.mode.label), ("n", .nat r.n), ("m", .nat r.m),
    ("passed", .bool r.passed)] ++
  wordMember "rxr" r.weighed ++ wordMember "sxc" r.claimed ++
  endsMember "challenge_ends" r.challengeEnds ++ endsMember "response_ends" r.responseEnds ++
  columnsMember "mismatched_columns" r.mismatchedColumns ++
  [("mismatch_count", .nat r.mismatchCount), ("elapsed_ms", .nat r.elapsedMillis)]

section Optional

variable (key other : String)

/-- The member with the key, if there is a value for it. -/
def optionalMember (value : Option Json) : List (String × Json) :=
  (value.map fun value => (key, value)).toList

lemma wordMember_eq (word : Option Word) :
    wordMember key word = optionalMember key (word.map fun word => .nat word.toNat) := by
  cases word <;> rfl

lemma endsMember_eq (ends : Option (Word × Word)) : endsMember key ends =
    optionalMember key (ends.map fun ends => .array [.nat ends.1.toNat, .nat ends.2.toNat]) := by
  cases ends <;> rfl

lemma columnsMember_eq (columns : List ℕ) : columnsMember key columns =
    optionalMember key (if columns = [] then none else some (.array (columns.map .nat))) := by
  cases columns <;> rfl

lemma lookup_optionalMember (value : Option Json) :
    (optionalMember key value).lookup other = if other = key then value else none := by
  cases value with
  | none => exact (ite_self none).symm
  | some value =>
    change [(key, value)].lookup other = _
    rw [List.lookup_cons, List.lookup_nil]
    by_cases h : other = key
    · rw [beq_iff_eq.2 h, if_pos h]
    · rw [beq_false_of_ne h, if_neg h]

lemma keys_optionalMember (value : Option Json) :
    ((optionalMember key value).map Prod.fst).Sublist [key] := by
  cases value with
  | none => exact List.nil_sublist _
  | some value => exact List.Sublist.refl _

end Optional

/-- The members, each of the optional ones in the same form. -/
lemma members_eq (r : Report) : r.members =
    [("role", .text r.role.label), ("mode", .text r.mode.label), ("n", .nat r.n), ("m", .nat r.m),
      ("passed", .bool r.passed)] ++
    optionalMember "rxr" (r.weighed.map fun word => .nat word.toNat) ++
    optionalMember "sxc" (r.claimed.map fun word => .nat word.toNat) ++
    optionalMember "challenge_ends"
      (r.challengeEnds.map fun ends => .array [.nat ends.1.toNat, .nat ends.2.toNat]) ++
    optionalMember "response_ends"
      (r.responseEnds.map fun ends => .array [.nat ends.1.toNat, .nat ends.2.toNat]) ++
    optionalMember "mismatched_columns"
      (if r.mismatchedColumns = [] then none else some (.array (r.mismatchedColumns.map .nat))) ++
    [("mismatch_count", .nat r.mismatchCount), ("elapsed_ms", .nat r.elapsedMillis)] := by
  rw [members, wordMember_eq, wordMember_eq, endsMember_eq, endsMember_eq, columnsMember_eq]

lemma nodup_keys (r : Report) : (r.members.map Prod.fst).Nodup := by
  have hsublist : (r.members.map Prod.fst).Sublist
      (["role", "mode", "n", "m", "passed"] ++ ["rxr"] ++ ["sxc"] ++ ["challenge_ends"] ++
        ["response_ends"] ++ ["mismatched_columns"] ++ ["mismatch_count", "elapsed_ms"]) := by
    rw [members_eq]
    simp only [List.map_append]
    have hkeys := keys_optionalMember
    exact (((((List.Sublist.refl _).append (hkeys _ _)).append (hkeys _ _)).append
      (hkeys _ _)).append (hkeys _ _)).append (hkeys _ _) |>.append (List.Sublist.refl _)
  exact hsublist.nodup (by decide)

/-- What is read of an object about a report: a value under each key that the report has. -/
structure Says (r : Report) (members : List (String × Json)) : Prop where
  nodup : (members.map Prod.fst).Nodup
  passed : members.lookup "passed" = some (.bool r.passed)
  weighed : members.lookup "rxr" = r.weighed.map fun word => .nat word.toNat
  claimed : members.lookup "sxc" = r.claimed.map fun word => .nat word.toNat
  challengeEnds : members.lookup "challenge_ends" =
    r.challengeEnds.map fun ends => .array [.nat ends.1.toNat, .nat ends.2.toNat]
  responseEnds : members.lookup "response_ends" =
    r.responseEnds.map fun ends => .array [.nat ends.1.toNat, .nat ends.2.toNat]
  mismatchedColumns : members.lookup "mismatched_columns" =
    if r.mismatchedColumns = [] then none else some (.array (r.mismatchedColumns.map .nat))
  mismatchCount : members.lookup "mismatch_count" = some (.nat r.mismatchCount)

theorem says_members (r : Report) : r.Says r.members := by
  refine ⟨r.nodup_keys, ?_, ?_, ?_, ?_, ?_, ?_, ?_⟩ <;>
    simp [members_eq, List.lookup_append, List.lookup_cons, lookup_optionalMember]

end Json

section Lines

def verdict (r : Report) : String := if r.passed then "PASSED" else "FAILED"

/-- The lines in front of the one about columns. -/
def openingLines (r : Report) : List String :=
  [s!"n = {r.n}", s!"m = {r.m}"] ++ endsLines "challenge" "n-1" r.challengeEnds ++
    endsLines "response" "m-1" r.responseEnds ++ sidesLines r.weighed r.claimed

lemma lines_eq (r : Report) : r.lines =
    r.openingLines ++ columnsLines r.mismatchCount r.mismatchedColumns ++ [r.verdict] := rfl

/-- The line tells of mismatched columns. -/
def tellsColumns (line : List Char) : Bool := "mismatched columns".toList.isPrefixOf line

/-- The text stays on one line, and no line that starts so tells of mismatched columns. -/
structure Silent (text : String) : Prop where
  oneLine : OneLine text
  silent : ∀ rest, tellsColumns (text.toList ++ rest) = false

variable {text : String}

lemma Silent.append {more : String} (h : Silent text) (hmore : OneLine more) :
    Silent (text ++ more) := by
  refine ⟨h.oneLine.append hmore, fun rest => ?_⟩
  rw [String.toList_append, List.append_assoc]
  exact h.silent _

lemma Silent.tellsColumns_eq_false (h : Silent text) : tellsColumns text.toList = false := by
  have hsilent := h.silent []
  rwa [List.append_nil] at hsilent

lemma silent_of_mem_endsLines {name last : String} (hname : Silent name) (hlast : OneLine last)
    {ends : Option (Word × Word)} (h : text ∈ endsLines name last ends) : Silent text := by
  cases ends with
  | none => cases h
  | some ends =>
    have hfirst : Silent s!"{name}[0] = {ends.1}" :=
      (hname.append (by decide)).append (oneLine_word _)
    have hsecond : Silent s!"{name}[{last}] = {ends.2}" :=
      (((hname.append (by decide)).append hlast).append (by decide)).append (oneLine_word _)
    rcases List.mem_pair.1 h with rfl | rfl
    · exact hfirst
    · exact hsecond

lemma silent_of_mem_sidesLines {weighed claimed : Option Word}
    (h : text ∈ sidesLines weighed claimed) : Silent text := by
  match weighed, claimed with
  | some weighed, some claimed =>
    have hfirst : Silent "rxr = " := ⟨by decide, fun _ => rfl⟩
    have hsecond : Silent "sxc = " := ⟨by decide, fun _ => rfl⟩
    rcases List.mem_pair.1 h with rfl | rfl
    · exact hfirst.append (oneLine_word weighed)
    · exact hsecond.append (oneLine_word claimed)
  | some weighed, none => cases h
  | none, _ => cases h

lemma silent_of_mem_openingLines {r : Report} (h : text ∈ r.openingLines) : Silent text := by
  simp only [openingLines, List.mem_append] at h
  obtain (((h | h) | h) | h) := h
  · have hn : Silent "n = " := ⟨by decide, fun _ => rfl⟩
    have hm : Silent "m = " := ⟨by decide, fun _ => rfl⟩
    rcases List.mem_pair.1 h with rfl | rfl
    · exact hn.append (oneLine_nat r.n)
    · exact hm.append (oneLine_nat r.m)
  · exact silent_of_mem_endsLines ⟨by decide, fun _ => rfl⟩ (by decide) h
  · exact silent_of_mem_endsLines ⟨by decide, fun _ => rfl⟩ (by decide) h
  · exact silent_of_mem_sidesLines h

lemma silent_verdict (r : Report) : Silent r.verdict := by
  unfold verdict
  cases r.passed
  · exact ⟨by decide, fun _ => rfl⟩
  · exact ⟨by decide, fun _ => rfl⟩

lemma oneLine_of_mem_columnsLines {count : ℕ} {columns : List ℕ}
    (h : text ∈ columnsLines count columns) : OneLine text := by
  cases columns with
  | nil => cases h
  | cons column columns =>
    obtain rfl := List.mem_singleton.1 h
    have hlist : OneLine (", ".intercalate ((column :: columns).map toString)) := by
      apply oneLine_intercalate (by decide)
      rw [List.forall_mem_map]
      exact fun column _ => oneLine_nat column
    have hcount : OneLine s!"mismatched columns ({count} total): [" :=
      (OneLine.append (by decide) (oneLine_nat count)).append (by decide)
    exact (hcount.append hlist).append (by decide)

lemma oneLine_of_mem_lines {r : Report} (h : text ∈ r.lines) : OneLine text := by
  rw [lines_eq, List.mem_append, List.mem_append, List.mem_singleton] at h
  obtain (h | h) | rfl := h
  · exact (silent_of_mem_openingLines h).oneLine
  · exact oneLine_of_mem_columnsLines h
  · exact r.silent_verdict.oneLine

lemma lines_ne_nil (r : Report) : r.lines ≠ [] := by
  rw [lines_eq]
  exact List.append_ne_nil_of_right_ne_nil _ (List.cons_ne_nil _ _)

/-- The printed text is split into the lines again. -/
lemma splitOn_display (r : Report) : r.display.toList.splitOn '\n' = r.lines.map String.toList := by
  rw [display, String.toList_intercalate]
  apply List.splitOn_intercalate
  · rw [List.forall_mem_map]
    exact fun line hline => oneLine_of_mem_lines hline
  · exact fun h => r.lines_ne_nil (List.map_eq_nil_iff.1 h)

lemma filter_columnsLines (count : ℕ) (columns : List ℕ) :
    ((columnsLines count columns).map String.toList).filter tellsColumns =
      (columnsLines count columns).map String.toList := by
  cases columns with
  | nil => rfl
  | cons column columns =>
    apply List.filter_cons_of_pos
    simp only [String.toList_append]
    rfl

/-- Of all lines only the one about the columns tells of them. -/
lemma filter_lines (r : Report) : (r.lines.map String.toList).filter tellsColumns =
    (columnsLines r.mismatchCount r.mismatchedColumns).map String.toList := by
  have hnil : ∀ {texts : List String}, (∀ text ∈ texts, Silent text) →
      (texts.map String.toList).filter tellsColumns = [] := by
    intro texts hsilent
    rw [List.filter_eq_nil_iff, List.forall_mem_map]
    intro text htext
    rw [(hsilent text htext).tellsColumns_eq_false]
    exact Bool.false_ne_true
  have hopening := hnil fun text (h : text ∈ r.openingLines) => silent_of_mem_openingLines h
  have hverdict := hnil (List.forall_mem_singleton.2 r.silent_verdict)
  rw [lines_eq, List.map_append, List.map_append, List.filter_append, List.filter_append, hopening,
    filter_columnsLines, hverdict, List.nil_append, List.append_nil]

lemma verdict_suffix_display (r : Report) : r.verdict.toList <:+ r.display.toList := by
  have hne : r.lines.map String.toList ≠ [] := fun h => r.lines_ne_nil (List.map_eq_nil_iff.1 h)
  have hlast : (r.lines.map String.toList).getLast hne = r.verdict.toList := by
    simp only [lines_eq, List.map_append, List.map_singleton, List.getLast_append_singleton]
  rw [display, String.toList_intercalate, ← hlast]
  exact getLast_suffix_intercalate _ hne

/-- A word as long as the verdict is the end of the text iff it is the verdict. -/
lemma suffix_display_iff {r : Report} {word : String} (h : word.toList.length = 6) :
    word.toList <:+ r.display.toList ↔ word = r.verdict := by
  constructor
  · intro hsuffix
    have hlength : word.toList.length = r.verdict.toList.length := by
      rw [h, verdict]
      split_ifs <;> rfl
    have hboth := List.suffix_of_suffix_length_le hsuffix r.verdict_suffix_display hlength.le
    exact String.toList_injective (hboth.eq_of_length hlength)
  · rintro rfl
    exact r.verdict_suffix_display

lemma passed_suffix_iff (r : Report) : "PASSED".toList <:+ r.display.toList ↔ r.passed = true := by
  rw [suffix_display_iff rfl, verdict]
  cases r.passed <;> decide

lemma failed_suffix_iff (r : Report) : "FAILED".toList <:+ r.display.toList ↔ r.passed = false := by
  rw [suffix_display_iff rfl, verdict]
  cases r.passed <;> decide

/-- What a reader finds in the printed text: the lines of the report, one about the columns if there
are any, and the verdict at the end. -/
structure Shows (r : Report) (text : List Char) : Prop where
  lines : text.splitOn '\n' = r.lines.map String.toList
  columns : (text.splitOn '\n').filter tellsColumns =
    if r.mismatchedColumns = [] then []
    else [(s!"mismatched columns ({r.mismatchCount} total): [" ++
      ", ".intercalate (r.mismatchedColumns.map toString) ++ "]").toList]
  passed : "PASSED".toList <:+ text ↔ r.passed = true
  failed : "FAILED".toList <:+ text ↔ r.passed = false

theorem shows_display (r : Report) : r.Shows r.display.toList := by
  refine ⟨r.splitOn_display, ?_, r.passed_suffix_iff, r.failed_suffix_iff⟩
  rw [splitOn_display, filter_lines]
  cases r.mismatchedColumns with
  | nil => rfl
  | cons column columns => rfl

end Lines

/-- Both texts of a report can be read, and they say what the report says. -/
structure Legible (r : Report) : Prop where
  shown : r.Shows r.display.toList
  saved : ∃ members, Json.parse? r.toJson.compact = some (.record members) ∧
    Json.parse? r.fileText = some (.record members) ∧ r.Says members

theorem legible (r : Report) : r.Legible where
  shown := r.shows_display
  saved := ⟨r.members, Json.parse?_compact _, Json.parse?_pretty _, r.says_members⟩

end Report

end MatrixAudit
