import Mathlib.Algebra.Group.Nat.Defs
import Mathlib.Data.List.Basic
import MatrixAudit.Channel.Reading

/-!
# Words on the wire

Decoding undoes encoding, for one number and for a vector of words with anything behind it, and a
vector can be decoded in two parts. The pieces of a list are its blocks of equal size.
-/

namespace MatrixAudit

lemma pieces_go_eq {α : Type} (size count : ℕ) (items : List α) (done : List (List α)) :
    pieces.go size count items done =
      done.reverse ++ (List.range count).map fun i => (items.drop (i * size)).take size := by
  induction count generalizing items done with
  | zero => simp [pieces.go]
  | succ count ih =>
    rw [pieces.go, ih, List.range_succ_eq_map]
    simp [Function.comp_def, Nat.succ_mul, Nat.add_comm]

lemma pieces_eq {α : Type} (size count : ℕ) (items : List α) :
    pieces size count items =
      (List.range count).map fun i => (items.drop (i * size)).take size := by
  rw [pieces, pieces_go_eq, List.reverse_nil, List.nil_append]

namespace LittleEndian

theorem decode_encode {width value : ℕ} (h : value < 256 ^ width) :
    decode (encode width value) = value := by
  induction width generalizing value with
  | zero =>
    rw [Nat.pow_zero, Nat.lt_one_iff] at h
    rw [h, encode, decode]
  | succ width ih =>
    have hnext : value / 256 < 256 ^ width := by
      rw [Nat.pow_succ] at h
      exact Nat.div_lt_of_lt_mul (by rwa [Nat.mul_comm])
    rw [encode, decode, ih hnext, UInt8.toNat_ofNat']
    omega

lemma ofNat_decode_encode (word : Word) :
    UInt64.ofNat (decode (encode wordWidth word.toNat)) = word := by
  rw [decode_encode word.toNat_lt, UInt64.ofNat_toNat]

lemma decodeWords_eq (width count : ℕ) (bytes : List UInt8) :
    decodeWords width count bytes =
      (List.range count).map fun i =>
        UInt64.ofNat (decode ((bytes.drop (i * width)).take width)) := by
  rw [decodeWords, pieces_eq, List.map_map]
  rfl

lemma decodeWords_succ (width count : ℕ) (bytes : List UInt8) :
    decodeWords width (count + 1) bytes =
      UInt64.ofNat (decode (bytes.take width)) :: decodeWords width count (bytes.drop width) := by
  simp only [decodeWords_eq, List.range_succ_eq_map, List.map_cons, List.map_map, Nat.zero_mul,
    List.drop_zero, List.drop_drop, Function.comp_def, Nat.succ_mul, Nat.add_comm width]

lemma decodeWords_add (width first second : ℕ) (bytes : List UInt8) :
    decodeWords width (first + second) bytes =
      decodeWords width first bytes ++ decodeWords width second (bytes.drop (width * first)) := by
  induction first generalizing bytes with
  | zero => simp [decodeWords_eq]
  | succ first ih =>
    rw [Nat.succ_add, decodeWords_succ, decodeWords_succ, ih, List.drop_drop, List.cons_append,
      Nat.mul_succ, Nat.add_comm width]

/-- Only the bytes of the words count. -/
lemma decodeWords_take (width count : ℕ) (bytes : List UInt8) :
    decodeWords width count (bytes.take (width * count)) = decodeWords width count bytes := by
  induction count generalizing bytes with
  | zero => simp [decodeWords_eq]
  | succ count ih =>
    rw [decodeWords_succ, decodeWords_succ, List.take_take, List.drop_take, Nat.mul_succ,
      Nat.min_eq_left (Nat.le_add_left _ _), Nat.add_sub_cancel, ih]

lemma length_encodeWords (width : ℕ) (words : List Word) :
    (encodeWords width words).length = width * words.length := by
  rw [encodeWords, List.length_flatMap]
  induction words with
  | nil => rfl
  | cons word words ih =>
    rw [List.map_cons, List.sum_cons, ih, length_encode, List.length_cons, Nat.mul_succ,
      Nat.add_comm]

/-- Words that fit the width are read back from their bytes, whatever follows these. -/
theorem decodeWords_encodeWords_of_lt {width : ℕ} {words : List Word}
    (hwords : ∀ word ∈ words, word.toNat < 256 ^ width) (rest : List UInt8) :
    decodeWords width words.length (encodeWords width words ++ rest) = words := by
  induction words with
  | nil => rfl
  | cons word words ih =>
    have hlen : (encode width word.toNat).length = width := length_encode _ _
    have hword : word.toNat < 256 ^ width := hwords word List.mem_cons_self
    have hnext := ih fun word hmem => hwords word (List.mem_cons_of_mem _ hmem)
    rw [List.length_cons, decodeWords_succ, encodeWords, List.flatMap_cons, List.append_assoc,
      List.take_left' hlen, List.drop_left' hlen, decode_encode hword, UInt64.ofNat_toNat]
    exact congrArg (word :: ·) hnext

theorem decodeWords_encodeWords (words : List Word) (rest : List UInt8) :
    decodeWords wordWidth words.length (encodeWords wordWidth words ++ rest) = words :=
  decodeWords_encodeWords_of_lt (fun word _ => word.toNat_lt) rest

theorem encode_decode {width : ℕ} {bytes : List UInt8} (h : bytes.length = width) :
    encode width (decode bytes) = bytes := by
  subst h
  induction bytes with
  | nil => rfl
  | cons byte rest ih =>
    have hlow : UInt8.ofNat (byte.toNat + 256 * decode rest) = byte := by
      apply UInt8.toNat_inj.1
      have hbyte := byte.toNat_lt
      rw [UInt8.toNat_ofNat']
      omega
    have hhigh : (byte.toNat + 256 * decode rest) / 256 = decode rest := by
      have hbyte := byte.toNat_lt
      omega
    rw [List.length_cons, decode, encode, hlow, hhigh, ih]

/-- Bytes of one length are told apart by the number they spell. -/
lemma decode_inj {first second : List UInt8} (hlen : first.length = second.length) :
    decode first = decode second ↔ first = second := by
  constructor
  · intro h
    rw [← encode_decode hlen, h, encode_decode rfl]
  · rintro rfl
    rfl

/-- A word has room for the number that its bytes spell. -/
lemma toNat_ofNat_decode {bytes : List UInt8} (h : bytes.length ≤ wordWidth) :
    (UInt64.ofNat (decode bytes)).toNat = decode bytes := by
  have hlt : decode bytes < 2 ^ 64 := calc
    decode bytes < 256 ^ bytes.length := decode_lt bytes
    _ ≤ 256 ^ wordWidth := Nat.pow_le_pow_right (by decide) h
    _ = 2 ^ 64 := rfl
  rw [UInt64.toNat_ofNat', Nat.mod_eq_of_lt hlt]

theorem encodeWords_decodeWords {width count : ℕ} (hwidth : width ≤ wordWidth)
    {bytes : List UInt8} (h : width * count ≤ bytes.length) :
    encodeWords width (decodeWords width count bytes) = bytes.take (width * count) := by
  induction count generalizing bytes with
  | zero => simp [decodeWords_eq, encodeWords]
  | succ count ih =>
    rw [Nat.mul_succ] at h
    have hlen : (bytes.take width).length = width := by
      rw [List.length_take]
      omega
    have hrest : width * count ≤ (bytes.drop width).length := by
      rw [List.length_drop]
      omega
    have hfirst : encode width (decode (bytes.take width)) = bytes.take width := encode_decode hlen
    have hrecord := ih hrest
    rw [encodeWords] at hrecord
    rw [decodeWords_succ, encodeWords, List.flatMap_cons, hrecord,
      toNat_ofNat_decode (by omega), hfirst, Nat.mul_succ, Nat.add_comm (width * count),
      List.take_add]

end LittleEndian

end MatrixAudit
