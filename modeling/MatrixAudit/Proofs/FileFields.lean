import MatrixAudit.Proofs.InnerTotals
import MatrixAudit.Proofs.WireWords

/-!
# Fields of a file

A field is the number in some bytes at a fixed place. A decoded vector holds the fields that follow
each other from its start on, and overwriting one field leaves all the others as they are.
-/

namespace MatrixAudit

/-- The number in the `width` bytes from `start` on. -/
def fieldAt (width start : ℕ) (bytes : List UInt8) : ℕ :=
  LittleEndian.decode ((bytes.drop start).take width)

lemma fieldAt_lt (width start : ℕ) (bytes : List UInt8) : fieldAt width start bytes < 256 ^ width := by
  have hlen : ((bytes.drop start).take width).length ≤ width := List.length_take_le _ _
  calc fieldAt width start bytes
      < 256 ^ ((bytes.drop start).take width).length := LittleEndian.decode_lt _
    _ ≤ 256 ^ width := Nat.pow_le_pow_right (by decide) hlen

lemma numberAt_decodeWords {width count i : ℕ} (hwidth : width ≤ wordWidth) (hi : i < count)
    (start : ℕ) (bytes : List UInt8) :
    numberAt (LittleEndian.decodeWords width count (bytes.drop start)) i =
      fieldAt width (start + width * i) bytes := by
  have hlen : ((bytes.drop (start + i * width)).take width).length ≤ wordWidth :=
    (List.length_take_le _ _).trans hwidth
  rw [numberAt_eq_getElem (by rwa [LittleEndian.length_decodeWords])]
  simp only [LittleEndian.decodeWords_eq, List.getElem_map, List.getElem_range, List.drop_drop]
  rw [LittleEndian.toNat_ofNat_decode hlen, fieldAt, Nat.mul_comm width i]

/-- A field does not depend on the bytes behind it. -/
lemma fieldAt_take {width start count : ℕ} (h : start + width ≤ count) (bytes : List UInt8) :
    fieldAt width start (bytes.take count) = fieldAt width start bytes := by
  have hwidth : width ≤ count - start := by omega
  rw [fieldAt, fieldAt, List.drop_take, List.take_take, Nat.min_eq_left hwidth]

/-- Other bytes spell another number. -/
lemma decode_ne_fieldAt {width start : ℕ} {patch bytes : List UInt8} (hpatch : patch.length = width)
    (fits : start + width ≤ bytes.length) (hne : patch ≠ (bytes.drop start).take width) :
    LittleEndian.decode patch ≠ fieldAt width start bytes := by
  have hlen : patch.length = ((bytes.drop start).take width).length := by
    rw [List.length_take, List.length_drop]
    omega
  exact fun h => hne ((LittleEndian.decode_inj hlen).1 h)

section Overwrite

variable {start : ℕ} {patch bytes : List UInt8}

lemma length_overwrite (fits : start + patch.length ≤ bytes.length) :
    (overwrite start patch bytes).length = bytes.length := by
  simp only [overwrite, List.length_append, List.length_take, List.length_drop]
  omega

lemma getElem?_overwrite (fits : start + patch.length ≤ bytes.length) (p : ℕ) :
    (overwrite start patch bytes)[p]? =
      if start ≤ p ∧ p < start + patch.length then patch[p - start]? else bytes[p]? := by
  have hlen : (bytes.take start).length = start := by
    rw [List.length_take]
    omega
  rw [overwrite, List.append_assoc, List.getElem?_append, hlen, List.getElem?_append,
    List.getElem?_take, List.getElem?_drop]
  by_cases hbefore : p < start
  · rw [if_pos hbefore, if_pos hbefore, if_neg (by omega)]
  by_cases hinside : p < start + patch.length
  · rw [if_neg hbefore, if_pos (by omega), if_pos (by omega)]
  · have hplace : start + patch.length + (p - start - patch.length) = p := by omega
    rw [if_neg hbefore, if_neg (by omega), if_neg (by omega), hplace]

theorem fieldAt_overwrite_of_disjoint {width place : ℕ}
    (fits : start + patch.length ≤ bytes.length)
    (apart : place + width ≤ start ∨ start + patch.length ≤ place) :
    fieldAt width place (overwrite start patch bytes) = fieldAt width place bytes := by
  unfold fieldAt
  congr 1
  apply List.ext_getElem?
  intro p
  rw [List.getElem?_take, List.getElem?_take, List.getElem?_drop, List.getElem?_drop,
    getElem?_overwrite fits]
  by_cases hp : p < width
  · rw [if_pos hp, if_pos hp, if_neg (by omega)]
  · rw [if_neg hp, if_neg hp]

theorem fieldAt_overwrite_self (fits : start + patch.length ≤ bytes.length) :
    fieldAt patch.length start (overwrite start patch bytes) = LittleEndian.decode patch := by
  have hlen : (bytes.take start).length = start := by
    rw [List.length_take]
    omega
  unfold fieldAt overwrite
  rw [List.append_assoc, List.drop_left' hlen, List.take_left]

/-- Overwriting one of the fields that follow each other from `base` on changes that field only. -/
theorem fieldAt_overwrite_field {width base p : ℕ} (hpatch : patch.length = width)
    (fits : base + width * p + width ≤ bytes.length) (q : ℕ) :
    fieldAt width (base + width * q) (overwrite (base + width * p) patch bytes) =
      if q = p then LittleEndian.decode patch else fieldAt width (base + width * q) bytes := by
  subst hpatch
  by_cases hsame : q = p
  · subst hsame
    rw [if_pos rfl]
    exact fieldAt_overwrite_self fits
  · rw [if_neg hsame]
    apply fieldAt_overwrite_of_disjoint fits
    obtain hbefore | hbehind := Nat.lt_or_gt_of_ne hsame
    · have hend : patch.length * (q + 1) ≤ patch.length * p := Nat.mul_le_mul_left _ hbefore
      rw [Nat.mul_succ] at hend
      omega
    · have hend : patch.length * (p + 1) ≤ patch.length * q := Nat.mul_le_mul_left _ hbehind
      rw [Nat.mul_succ] at hend
      omega

end Overwrite

end MatrixAudit
