import Mathlib.Data.List.Basic
import Mathlib.Data.List.Nodup
import MatrixAudit.Settings
import MatrixAudit.Proofs.JsonLayout

/-!
# Texts of settings

Settings are written as an object and read from one key by key. What is read does not depend on the
order of the members, on their layout or on members under other keys, and a key that is repeated or
left out is noticed.
-/

namespace MatrixAudit
namespace Json

/-- The members in any order, among others with none of their keys. -/
def Extends (members own : List (String × Json)) : Prop :=
  ∃ others : List (String × Json), (∀ other ∈ others, other.1 ∉ own.map Prod.fst) ∧
    members.Perm (own ++ others)

/-- The value of a key, which may be left out if it is optional. -/
def field? (optional : List String) (key : String) (members : List (Option String × Json)) :
    Option Json :=
  if key ∈ optional then onlyOrNull? key members else only? key members

/-- The values of the keys, in order. -/
def fields? (keys optional : List String) (members : List (Option String × Json)) :
    Option (List Json) :=
  keys.mapM fun key => field? optional key members

section Collecting

variable {keys optional : List String} {key other : String} {value : Json}
  {member : Option String × Json} {members others : List (Option String × Json)}

/-- The members with the given key. -/
def withKey (key : String) (members : List (Option String × Json)) : List (Option String × Json) :=
  members.filter fun member => member.1 == some key

lemma withKey_cons_self : withKey key ((some key, value) :: members) =
    (some key, value) :: withKey key members :=
  List.filter_cons_of_pos (beq_self_eq_true (some key))

lemma withKey_cons_of_ne (h : member.1 ≠ some key) :
    withKey key (member :: members) = withKey key members :=
  List.filter_cons_of_neg fun heq => h (eq_of_beq heq)

lemma withKey_append :
    withKey key (members ++ others) = withKey key members ++ withKey key others :=
  List.filter_append ..

lemma withKey_perm (h : members.Perm others) : (withKey key members).Perm (withKey key others) :=
  h.filter _

lemma withKey_eq_nil (h : some key ∉ members.map Prod.fst) : withKey key members = [] := by
  rw [withKey, List.filter_eq_nil_iff]
  intro member hmember heq
  exact h (List.mem_map.2 ⟨member, hmember, eq_of_beq heq⟩)

lemma length_withKey : (withKey key members).length = (members.map Prod.fst).count (some key) := by
  rw [withKey, List.count_eq_countP, List.countP_map, List.countP_eq_length_filter]
  rfl

lemma withKey_eq_singleton (hnodup : (members.map Prod.fst).Nodup)
    (h : (some key, value) ∈ members) : withKey key members = [(some key, value)] := by
  induction members with
  | nil => cases h
  | cons first rest ih =>
    rw [List.map_cons, List.nodup_cons] at hnodup
    rcases List.mem_cons.1 h with rfl | hrest
    · rw [withKey_cons_self, withKey_eq_nil hnodup.1]
    · have hne : first.1 ≠ some key := by
        intro heq
        exact hnodup.1 (heq ▸ List.mem_map.2 ⟨_, hrest, rfl⟩)
      rw [withKey_cons_of_ne hne, ih hnodup.2 hrest]

lemma only?_eq : only? key members = match withKey key members with
    | [member] => some member.2
    | _ => none := rfl

lemma onlyOrNull?_eq : onlyOrNull? key members = match withKey key members with
    | [] => some .null
    | [member] => some member.2
    | _ => none := rfl

lemma field?_eq_some (h : withKey key members = [member]) :
    field? optional key members = some member.2 := by
  rw [field?, only?_eq, onlyOrNull?_eq, h, ite_self]

lemma field?_of_notMem (h : some key ∉ members.map Prod.fst) :
    field? optional key members = if key ∈ optional then some .null else none := by
  rw [field?, only?_eq, onlyOrNull?_eq, withKey_eq_nil h]

lemma field?_of_repeated (h : 2 ≤ (members.map Prod.fst).count (some key)) :
    field? optional key members = none := by
  rw [← length_withKey] at h
  rw [field?, only?_eq, onlyOrNull?_eq]
  match hwith : withKey key members with
  | [] | [_] => rw [hwith] at h; contradiction
  | _ :: _ :: _ => exact ite_self none

lemma field?_congr (h : (withKey key members).Perm (withKey key others)) :
    field? optional key members = field? optional key others := by
  rw [field?, field?, only?_eq, only?_eq, onlyOrNull?_eq, onlyOrNull?_eq]
  generalize withKey key members = first at h
  generalize withKey key others = second at h
  -- only a list of one member is looked into
  match second with
  | [] => rw [List.perm_nil.1 h]
  | [member] => rw [List.perm_singleton.1 h]
  | _ :: _ :: _ =>
    match first with
    | [] | [_] => cases h.length_eq
    | _ :: _ :: _ => rfl

lemma fields?_eq_none (hkey : key ∈ keys) (h : field? optional key members = none) :
    fields? keys optional members = none := by
  unfold fields?
  induction keys with
  | nil => cases hkey
  | cons first rest ih =>
    rw [List.mapM_cons]
    rcases List.mem_cons.1 hkey with rfl | hrest
    · rw [h]
      rfl
    · rw [ih hrest]
      cases field? optional first members <;> rfl

lemma fields?_eq_some {own : List (String × Json)}
    (h : ∀ member ∈ own, field? optional member.1 members = some member.2) :
    fields? (own.map Prod.fst) optional members = some (own.map Prod.snd) := by
  unfold fields?
  induction own with
  | nil => rfl
  | cons first rest ih =>
    rw [List.map_cons, List.mapM_cons, h first List.mem_cons_self,
      ih fun member hmember => h member (List.mem_cons_of_mem _ hmember)]
    rfl

lemma fields?_of_omitted (hkey : key ∈ optional) (habsent : some key ∉ members.map Prod.fst)
    (h : others.Perm ((some key, .null) :: members)) :
    fields? keys optional members = fields? keys optional others := by
  unfold fields?
  congr 1
  funext other
  have hwith : (withKey other others).Perm (withKey other ((some key, .null) :: members)) :=
    withKey_perm h
  by_cases heq : key = other
  · rw [← heq] at hwith ⊢
    rw [withKey_cons_self, withKey_eq_nil habsent, List.perm_singleton] at hwith
    rw [field?_eq_some hwith, field?_of_notMem habsent, if_pos hkey]
  · rw [withKey_cons_of_ne fun hsome => heq (Option.some.inj hsome)] at hwith
    exact field?_congr hwith.symm

end Collecting

section Extension

variable {key : String} {value : Json} {members own : List (String × Json)}

/-- The members of a record. -/
def tagged (members : List (String × Json)) : List (Option String × Json) :=
  members.map fun member => (some member.1, member.2)

lemma map_fst_tagged : (tagged members).map Prod.fst = (members.map Prod.fst).map some := by
  rw [tagged, List.map_map, List.map_map]
  rfl

lemma Extends.withKey_eq (h : Extends members own) (hnodup : (own.map Prod.fst).Nodup)
    (hmem : (key, value) ∈ own) : withKey key (tagged members) = [(some key, value)] := by
  obtain ⟨others, hothers, hperm⟩ := h
  have hnone : withKey key (tagged others) = [] := by
    apply withKey_eq_nil
    rw [map_fst_tagged, List.mem_map_of_injective (Option.some_injective _)]
    intro hkey
    obtain ⟨other, hother, rfl⟩ := List.mem_map.1 hkey
    exact hothers other hother (List.mem_map.2 ⟨_, hmem, rfl⟩)
  have hown : withKey key (tagged own) = [(some key, value)] := by
    apply withKey_eq_singleton
    · rw [map_fst_tagged]
      exact List.Nodup.map (Option.some_injective _) hnodup
    · exact List.mem_map.2 ⟨_, hmem, rfl⟩
  have hwith : (withKey key (tagged members)).Perm (withKey key (tagged (own ++ others))) :=
    withKey_perm (hperm.map _)
  rwa [tagged, tagged, List.map_append, withKey_append, ← tagged, ← tagged, ← tagged, hown, hnone,
    List.append_nil, List.perm_singleton] at hwith

lemma Extends.refl (own : List (String × Json)) : Extends own own :=
  ⟨[], nofun, by rw [List.append_nil]⟩

lemma Extends.fields?_eq (optional : List String) (h : Extends members own)
    (hnodup : (own.map Prod.fst).Nodup) :
    fields? (own.map Prod.fst) optional (tagged members) = some (own.map Prod.snd) :=
  fields?_eq_some fun _ hmember => field?_eq_some (h.withKey_eq hnodup hmember)

lemma members?_record (members : List (String × Json)) :
    (record members).members? = some (tagged members) := by
  rw [record, members?, if_pos]
  · rfl
  · rw [List.all_map, List.all_eq_true]
    exact fun _ _ => rfl

lemma members?_congr_of_perm {members others : List (Option String × Json)} {key : String}
    (h : others.Perm ((some key, value) :: members)) :
    ((object members).members? = none ∧ (object others).members? = none) ∨
      ((object members).members? = some members ∧ (object others).members? = some others) := by
  have hall := h.all_eq (f := fun member => member.1.isSome)
  rw [List.all_cons, Option.isSome_some, Bool.true_and] at hall
  rw [members?, members?, hall]
  by_cases hsome : (members.all fun member => member.1.isSome) = true
  · rw [if_pos hsome, if_pos hsome]
    exact .inr ⟨rfl, rfl⟩
  · rw [if_neg hsome, if_neg hsome]
    exact .inl ⟨rfl, rfl⟩

end Extension

end Json

/-- Values are written as objects with the given keys, and read again from every text of such an
object. -/
structure TextForm {α : Type} (keys optional : List String) (toJson : α → Json)
    (members : α → List (String × Json)) (parse? : String → Option α) : Prop where
  written (s : α) : toJson s = .record (members s)
  keyed (s : α) : (members s).map Prod.fst = keys
  compact (s : α) : parse? (toJson s).compact = some s
  /-- However the members are ordered, laid out and mixed with others. -/
  extended {s : α} {all : List (String × Json)} {text : String}
    (hall : Json.Extends all (members s))
    (htext : Json.Layout (Json.record all).tokens text.toList) : parse? text = some s
  /-- To leave an optional key out is to give it the value null. -/
  omitted {key : String} {all others : List (Option String × Json)} {text nulled : String}
    (hkey : key ∈ optional) (habsent : some key ∉ all.map Prod.fst)
    (hperm : others.Perm ((some key, .null) :: all))
    (htext : Json.parse? text = some (.object all))
    (hnulled : Json.parse? nulled = some (.object others)) : parse? text = parse? nulled
  repeated {key : String} {all : List (Option String × Json)} {text : String}
    (hkey : key ∈ keys) (htwice : 2 ≤ (all.map Prod.fst).count (some key))
    (htext : Json.parse? text = some (.object all)) : parse? text = none
  missing {key : String} {all : List (Option String × Json)} {text : String}
    (hkey : key ∈ keys) (hrequired : key ∉ optional) (habsent : some key ∉ all.map Prod.fst)
    (htext : Json.parse? text = some (.object all)) : parse? text = none

section Reading

variable {α : Type} {keys optional : List String} {toJson : α → Json}
  {members : α → List (String × Json)} {parse? : String → Option α}
  {ofFields? : List Json → Option α}

/-- A reader that collects the values of its keys and looks at nothing else. -/
lemma textForm_of_fields? (hwritten : ∀ s, toJson s = .record (members s))
    (hkeyed : ∀ s, (members s).map Prod.fst = keys) (hnodup : keys.Nodup)
    (hread : ∀ {text all}, Json.parse? text = some (.object all) → parse? text =
      (Json.object all).members?.bind fun all =>
        (Json.fields? keys optional all).bind ofFields?)
    (hvalues : ∀ s, ofFields? ((members s).map Prod.snd) = some s) :
    TextForm keys optional toJson members parse? := by
  have hextended : ∀ {s all text}, Json.Extends all (members s) →
      Json.Layout (Json.record all).tokens text.toList → parse? text = some s := by
    intro s all text hall htext
    have hfields := hall.fields?_eq optional (by rwa [hkeyed])
    rw [hkeyed] at hfields
    rw [hread (Json.parse?_of_layout htext)]
    change (Json.record all).members?.bind _ = _
    rw [Json.members?_record, Option.bind_some, hfields, Option.bind_some, hvalues]
  have hnone : ∀ {key all text}, key ∈ keys → Json.field? optional key all = none →
      Json.parse? text = some (.object all) → parse? text = none := by
    intro key all text hkey hfield htext
    rw [hread htext, Json.members?]
    by_cases hall : (all.all fun member => member.1.isSome) = true
    · rw [if_pos hall, Option.bind_some, Json.fields?_eq_none hkey hfield]
      rfl
    · rw [if_neg hall]
      rfl
  exact
    { written := hwritten
      keyed := hkeyed
      compact := fun s => by
        apply hextended (.refl (members s))
        rw [hwritten]
        exact Json.layout_compact _
      extended := hextended
      omitted := fun {key all others text nulled} hkey habsent hperm htext hnulled => by
        rw [hread htext, hread hnulled]
        obtain ⟨hall, hothers⟩ | ⟨hall, hothers⟩ := Json.members?_congr_of_perm hperm
        · rw [hall, hothers]
        · rw [hall, hothers, Option.bind_some, Option.bind_some,
            Json.fields?_of_omitted hkey habsent hperm]
      repeated := fun hkey htwice htext => hnone hkey (Json.field?_of_repeated htwice) htext
      missing := fun hkey hrequired habsent htext => by
        refine hnone hkey ?_ htext
        rw [Json.field?_of_notMem habsent, if_neg hrequired] }

end Reading

section Values

lemma Mode.mode?_label (mode : Mode) : (Json.text mode.label).mode? = some mode := by
  cases mode <;> rfl

lemma Json.port?_nat (port : UInt16) : (Json.nat port.toNat).port? = some port := by
  have hle : port.toNat ≤ UInt16.size - 1 := Nat.le_sub_one_of_lt port.toNat_lt_size
  rw [Json.port?, Json.nat, Json.nat?, if_pos hle, Option.map_some, UInt16.ofNat_toNat]

lemma Json.word?_nat (word : Word) : (Json.nat word.toNat).word? = some word := by
  have hle : word.toNat ≤ UInt64.size - 1 := Nat.le_sub_one_of_lt word.toNat_lt_size
  rw [Json.word?, Json.nat, Json.nat?, if_pos hle, Option.map_some, UInt64.ofNat_toNat]

lemma Json.wordOrNull?_nat (word : Word) :
    (Json.nat word.toNat).wordOrNull? = some (some word) := by
  change (Json.nat word.toNat).word?.map some = _
  rw [Json.word?_nat, Option.map_some]

end Values

namespace VerifierSettings

def members (s : VerifierSettings) : List (String × Json) :=
  [("mode", .text s.mode.label), ("bind", .text s.bind), ("port", .nat s.port.toNat),
    ("io_timeout_secs", .nat s.timeoutSeconds.toNat), ("parallel", .bool s.parallel)]

def keys : List String := ["mode", "bind", "port", "io_timeout_secs", "parallel"]

def ofFields? : List Json → Option VerifierSettings
  | [mode, bind, port, timeout, parallel] => ofValues? mode bind port timeout parallel
  | _ => none

lemma ofFields?_members (s : VerifierSettings) :
    ofFields? (s.members.map Prod.snd) = some s := by
  change ofValues? (.text s.mode.label) (.text s.bind) (.nat s.port.toNat)
    (.nat s.timeoutSeconds.toNat) (.bool s.parallel) = _
  rw [ofValues?, Mode.mode?_label, Json.port?_nat, Json.word?_nat]
  rfl

lemma parse?_eq {text : String} {all : List (Option String × Json)}
    (h : Json.parse? text = some (.object all)) : parse? text =
      (Json.object all).members?.bind fun all => (Json.fields? keys [] all).bind ofFields? := by
  rw [parse?, h, Option.bind_some, ofJson?]
  · simp [Json.fields?, keys, List.mapM_cons, Json.field?, ofFields?, Option.bind_assoc]
  · nofun

theorem textForm : TextForm keys [] toJson members parse? :=
  textForm_of_fields? (fun _ => rfl) (fun _ => rfl) (by decide) parse?_eq ofFields?_members

end VerifierSettings

namespace AuditorSettings

def members (s : AuditorSettings) : List (String × Json) :=
  [("host", .text s.host), ("port", .nat s.port.toNat),
    ("io_timeout_secs", .nat s.timeoutSeconds.toNat),
    ("seed", match s.seed with
      | some seed => .nat seed.toNat
      | none => .null)]

def keys : List String := ["host", "port", "io_timeout_secs", "seed"]

def ofFields? : List Json → Option AuditorSettings
  | [host, port, timeout, seed] => ofValues? host port timeout seed
  | _ => none

lemma ofFields?_members (s : AuditorSettings) : ofFields? (s.members.map Prod.snd) = some s := by
  obtain ⟨host, port, timeout, seed⟩ := s
  cases seed with
  | some seed =>
    change ofValues? (.text host) (.nat port.toNat) (.nat timeout.toNat) (.nat seed.toNat) = _
    rw [ofValues?, Json.port?_nat, Json.word?_nat, Json.wordOrNull?_nat]
    rfl
  | none =>
    change ofValues? (.text host) (.nat port.toNat) (.nat timeout.toNat) .null = _
    rw [ofValues?, Json.port?_nat, Json.word?_nat]
    rfl

lemma parse?_eq {text : String} {all : List (Option String × Json)}
    (h : Json.parse? text = some (.object all)) : parse? text =
      (Json.object all).members?.bind fun all =>
        (Json.fields? keys ["seed"] all).bind ofFields? := by
  rw [parse?, h, Option.bind_some, ofJson?]
  · simp [Json.fields?, keys, List.mapM_cons, Json.field?, ofFields?, Option.bind_assoc]
  · nofun

theorem textForm : TextForm keys ["seed"] toJson members parse? :=
  textForm_of_fields? (fun _ => rfl) (fun _ => rfl) (by decide) parse?_eq ofFields?_members

end AuditorSettings

/-- The settings of both programs are read back from their compact text and from every other text
of theirs. -/
theorem settings_read_back :
    TextForm ["mode", "bind", "port", "io_timeout_secs", "parallel"] []
        VerifierSettings.toJson VerifierSettings.members VerifierSettings.parse? ∧
      TextForm ["host", "port", "io_timeout_secs", "seed"] ["seed"]
        AuditorSettings.toJson AuditorSettings.members AuditorSettings.parse? :=
  ⟨VerifierSettings.textForm, AuditorSettings.textForm⟩

def AuditorSettings.sample : AuditorSettings :=
  { host := "host \"Ä\\", port := 65535, timeoutSeconds := 0, seed := none }

theorem settings_read_back_sample :
    AuditorSettings.parse?
        (Json.record (AuditorSettings.sample.members.reverse ++
          [("note", .array [.null])])).pretty = some .sample ∧
      AuditorSettings.parse? (Json.record (AuditorSettings.sample.members.take 3)).compact =
        some .sample ∧
      AuditorSettings.parse?
        (Json.record (AuditorSettings.sample.members ++ [("port", .nat 1)])).compact = none ∧
      AuditorSettings.parse? (Json.record (AuditorSettings.sample.members.drop 1)).compact =
        none := by
  obtain ⟨-, hform⟩ := settings_read_back
  refine ⟨?_, ?_, ?_, ?_⟩
  · refine hform.extended ⟨[("note", .array [.null])], ?_, ?_⟩ (Json.layout_pretty _)
    · decide
    · exact (List.reverse_perm _).append_right _
  · refine (hform.omitted (List.mem_singleton_self "seed") ?_ (List.perm_append_singleton _ _)
      (Json.parse?_compact _) (Json.parse?_compact _)).trans (hform.compact .sample)
    decide
  · have hkey : "port" ∈ ["host", "port", "io_timeout_secs", "seed"] := by decide
    exact hform.repeated hkey (by decide) (Json.parse?_compact _)
  · have hkey : "host" ∈ ["host", "port", "io_timeout_secs", "seed"] := by decide
    exact hform.missing hkey (by decide) (by decide) (Json.parse?_compact _)

end MatrixAudit
