import MatrixAudit.Proofs.JsonGaps
import MatrixAudit.Proofs.ReportText

/-!
# Reports told apart by their texts

A report is saved with a member for each value that it has. The keys tell which values these are, so
different reports have different members, and therefore different texts in either layout. No key and
no value has a blank in it, so the layouts differ in their gaps only.
-/

namespace MatrixAudit

section Values

lemma Json.nat_injective : Function.Injective Json.nat := by
  rintro first second ⟨⟩
  rfl

lemma Json.text_injective : Function.Injective Json.text := by
  rintro first second ⟨⟩
  rfl

lemma Json.array_nat_injective :
    Function.Injective fun columns : List ℕ => Json.array (columns.map .nat) := by
  intro first second h
  exact List.map_injective_iff.2 Json.nat_injective (Json.array.inj h)

lemma Json.record_injective : Function.Injective Json.record := by
  intro first second h
  refine List.map_injective_iff.2 ?_ (Json.object.inj h)
  rintro ⟨key, value⟩ ⟨key', value'⟩ ⟨⟩
  rfl

lemma Json.word_injective : Function.Injective fun word : Word => Json.nat word.toNat :=
  Json.nat_injective.comp fun _ _ => UInt64.toNat_inj.1

lemma Json.ends_injective : Function.Injective fun ends : Word × Word =>
    Json.array [.nat ends.1.toNat, .nat ends.2.toNat] := by
  intro first second h
  obtain ⟨hfirst, hlast⟩ := List.cons_eq_cons.1 (Json.array.inj h)
  exact Prod.ext (Json.word_injective hfirst) (Json.word_injective (List.head_eq_of_cons_eq hlast))

lemma Role.label_injective : Function.Injective Role.label := by
  intro first second h
  cases first <;> cases second <;> first | rfl | exact absurd h (by decide)

lemma Mode.label_injective : Function.Injective Mode.label := by
  intro first second h
  cases first <;> cases second <;> first | rfl | exact absurd h (by decide)

end Values

namespace Report

/-- What is read of an object about the kind and the size of a run. -/
structure SaysRun (r : Report) (members : List (String × Json)) : Prop where
  role : members.lookup "role" = some (.text r.role.label)
  mode : members.lookup "mode" = some (.text r.mode.label)
  n : members.lookup "n" = some (.nat r.n)
  m : members.lookup "m" = some (.nat r.m)
  elapsedMillis : members.lookup "elapsed_ms" = some (.nat r.elapsedMillis)

theorem saysRun_members (r : Report) : r.SaysRun r.members := by
  refine ⟨?_, ?_, ?_, ?_, ?_⟩ <;>
    simp [members_eq, List.lookup_append, List.lookup_cons, lookup_optionalMember]

section Identity

variable {r other : Report} {members : List (String × Json)}

/-- Columns are read back, and none are where there is no member for them. -/
lemma columns_eq {columns columns' : List ℕ}
    (h : (if columns = [] then none else some (Json.array (columns.map .nat))) =
      if columns' = [] then none else some (Json.array (columns'.map .nat))) :
    columns = columns' := by
  by_cases hnil : columns = []
  · rw [if_pos hnil] at h
    by_cases hnil' : columns' = []
    · rw [hnil, hnil']
    · rw [if_neg hnil'] at h
      cases h
  · rw [if_neg hnil] at h
    by_cases hnil' : columns' = []
    · rw [if_pos hnil'] at h
      cases h
    · rw [if_neg hnil'] at h
      exact Json.array_nat_injective (Option.some.inj h)

lemma eq_of_lookup {α : Type} {form : α → Json} (hform : Function.Injective form) {key : String}
    {a b : α} (h : members.lookup key = some (form a)) (h' : members.lookup key = some (form b)) :
    a = b :=
  hform (Option.some.inj (h.symm.trans h'))

/-- The members of an object can be about one report only. -/
theorem eq_of_says (h : r.Says members) (hrun : r.SaysRun members) (h' : other.Says members)
    (hrun' : other.SaysRun members) : r = other := by
  apply Report.ext
  · exact Role.label_injective (eq_of_lookup Json.text_injective hrun.role hrun'.role)
  · exact Mode.label_injective (eq_of_lookup Json.text_injective hrun.mode hrun'.mode)
  · exact eq_of_lookup Json.nat_injective hrun.n hrun'.n
  · exact eq_of_lookup Json.nat_injective hrun.m hrun'.m
  · exact eq_of_lookup (fun _ _ => Json.bool.inj) h.passed h'.passed
  · exact Option.map_injective Json.word_injective (h.weighed.symm.trans h'.weighed)
  · exact Option.map_injective Json.word_injective (h.claimed.symm.trans h'.claimed)
  · exact Option.map_injective Json.ends_injective (h.challengeEnds.symm.trans h'.challengeEnds)
  · exact Option.map_injective Json.ends_injective (h.responseEnds.symm.trans h'.responseEnds)
  · exact columns_eq (h.mismatchedColumns.symm.trans h'.mismatchedColumns)
  · exact eq_of_lookup Json.nat_injective h.mismatchCount h'.mismatchCount
  · exact eq_of_lookup Json.nat_injective hrun.elapsedMillis hrun'.elapsedMillis

end Identity

theorem members_injective : Function.Injective members := by
  intro r other h
  have hsays := other.says_members
  have hrun := other.saysRun_members
  rw [← h] at hsays hrun
  exact eq_of_says r.says_members r.saysRun_members hsays hrun

theorem toJson_injective : Function.Injective toJson :=
  Json.record_injective.comp members_injective

section Gaps

open Json

/-- Neither the key of a member nor a literal of its value has a blank in it. -/
def Solid (member : String × Json) : Prop :=
  bare (quoted (some member.1)) = quoted (some member.1) ∧ Unbroken member.2.tokens

lemma solid {key : String} {value : Json} (hkey : bare (quoted (some key)) = quoted (some key))
    (hvalue : Unbroken value.tokens) : Solid (key, value) := ⟨hkey, hvalue⟩

lemma unbroken_nat (n : ℕ) : Unbroken (Json.nat n).tokens := by
  simp [Json.nat, Json.tokens]

lemma unbroken_text {word : String} (h : bare (quoted (some word)) = quoted (some word)) :
    Unbroken (Json.text word).tokens := by
  simp [Json.text, Json.tokens, h]

lemma unbroken_nats (numbers : List ℕ) : Unbroken (Json.array (numbers.map .nat)).tokens :=
  unbroken_array (List.forall_mem_map.2 fun n _ => unbroken_nat n)

lemma solid_optionalMember {key : String} {value : Option Json}
    (hkey : bare (quoted (some key)) = quoted (some key))
    (hvalue : ∀ v ∈ value, Unbroken v.tokens) :
    ∀ member ∈ optionalMember key value, Solid member := by
  intro member hmember
  obtain ⟨v, hv, rfl⟩ := Option.map_eq_some_iff.1 (Option.mem_toList.1 hmember)
  exact solid hkey (hvalue v hv)

lemma solid_members (r : Report) : ∀ member ∈ r.members, Solid member := by
  have hword : ∀ word : Option Word, ∀ v ∈ word.map fun word => Json.nat word.toNat,
      Unbroken v.tokens := by
    rintro (_ | word) v ⟨⟩
    exact unbroken_nat _
  have hends : ∀ ends : Option (Word × Word),
      ∀ v ∈ ends.map fun ends => Json.array [.nat ends.1.toNat, .nat ends.2.toNat],
        Unbroken v.tokens := by
    rintro (_ | ends) v ⟨⟩
    exact unbroken_nats [_, _]
  have hcolumns : ∀ v ∈ (if r.mismatchedColumns = [] then none
      else some (Json.array (r.mismatchedColumns.map .nat))), Unbroken v.tokens := by
    intro v hv
    split_ifs at hv
    · cases hv
    · obtain rfl := Option.some.inj hv
      exact unbroken_nats _
  have hrun : ∀ member ∈ [("role", Json.text r.role.label), ("mode", .text r.mode.label),
      ("n", .nat r.n), ("m", .nat r.m), ("passed", .bool r.passed)], Solid member := by
    have hrole : Unbroken (Json.text r.role.label).tokens :=
      unbroken_text (by cases r.role <;> decide)
    have hmode : Unbroken (Json.text r.mode.label).tokens :=
      unbroken_text (by cases r.mode <;> decide)
    have hpassed : Unbroken (Json.bool r.passed).tokens := by simp [Json.tokens]
    simp only [List.forall_mem_cons, List.not_mem_nil, false_imp_iff, implies_true, and_true]
    exact ⟨solid (by decide) hrole, solid (by decide) hmode, solid (by decide) (unbroken_nat _),
      solid (by decide) (unbroken_nat _), solid (by decide) hpassed⟩
  have hcounts : ∀ member ∈ [("mismatch_count", Json.nat r.mismatchCount),
      ("elapsed_ms", .nat r.elapsedMillis)], Solid member := by
    simp only [List.forall_mem_cons, List.not_mem_nil, false_imp_iff, implies_true, and_true]
    exact ⟨solid (by decide) (unbroken_nat _), solid (by decide) (unbroken_nat _)⟩
  rw [members_eq]
  simp only [List.forall_mem_append]
  exact ⟨⟨⟨⟨⟨⟨hrun, solid_optionalMember (by decide) (hword _)⟩,
    solid_optionalMember (by decide) (hword _)⟩,
    solid_optionalMember (by decide) (hends _)⟩,
    solid_optionalMember (by decide) (hends _)⟩,
    solid_optionalMember (by decide) hcolumns⟩, hcounts⟩

theorem bare_fileText (r : Report) : bare r.fileText.toList = r.toJson.compact.toList :=
  bare_pretty (unbroken_record r.solid_members)

end Gaps

/-- A report can be told from either of its texts, and taking the blanks and the line ends out of
the saved one gives the compact one. -/
theorem texts_identify :
    (∀ r other : Report, r.toJson.compact = other.toJson.compact → r = other) ∧
    (∀ r other : Report, r.fileText = other.fileText → r = other) ∧
    ∀ r : Report, String.ofList (r.fileText.toList.filter fun c => c ≠ ' ' && c ≠ '\n') =
      r.toJson.compact := by
  refine ⟨fun r other h => toJson_injective (Json.compact_injective h),
    fun r other h => toJson_injective (Json.pretty_injective h), fun r => ?_⟩
  rw [← Json.bare, bare_fileText, String.ofList_toList]

/-- A report of a check, and one with a side in the place of its first column. -/
theorem texts_identify_sample :
    let check : ColumnCheck := ⟨[5, 7, 9], [0, 2], 2, false⟩
    let r : Report := ⟨.verifier, .offline, 3, 2, false, none, none, none, none, [0, 2], 2, 12⟩
    let other : Report := ⟨.verifier, .offline, 3, 2, false, some 0, none, none, none, [2], 2, 12⟩
    r = ofColumnCheck 3 2 check 12 ∧
    r.toJson.compact ≠ other.toJson.compact ∧ r.fileText ≠ other.fileText ∧
    String.ofList (r.fileText.toList.filter fun c => c ≠ ' ' && c ≠ '\n') =
      "\x7b\"role\":\"verifier\",\"mode\":\"offline\",\"n\":3,\"m\":2,\"passed\":false," ++
        "\"mismatched_columns\":[0,2],\"mismatch_count\":2,\"elapsed_ms\":12\x7d" := by
  intro check r other
  obtain ⟨hcompact, hsaved, hbare⟩ := texts_identify
  have hne : r ≠ other := by decide
  refine ⟨hsaved _ _ rfl, fun h => hne (hcompact _ _ h), fun h => hne (hsaved _ _ h),
    (hbare r).trans ?_⟩
  decide +kernel

end Report

end MatrixAudit
