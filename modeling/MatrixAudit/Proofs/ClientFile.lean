import MatrixAudit.Client
import MatrixAudit.Proofs.FileFields
import MatrixAudit.Proofs.FileReading

/-!
# Contents of a client file

Whatever bytes a client file holds, reading it either finds the first thing that is wrong with them
or gives a client. The bytes of a client are those that its file would be written with, so a client
has one file only and no file goes on where another one ends.
-/

namespace MatrixAudit

namespace Client

/-- The number of columns that some contents start with. -/
def announcedCols (contents : List UInt8) : ℕ := fieldAt wordWidth 0 contents

/-- The number of rows, behind that of the columns. -/
def announcedRows (contents : List UInt8) : ℕ := fieldAt wordWidth wordWidth contents

def weightsStart : ℕ := 2 * wordWidth

def claimedStart (m : ℕ) : ℕ := weightsStart + wordWidth * m

/-- The length of the file of `m` weights and `n` claimed sums. -/
def fileLength (n m : ℕ) : ℕ := claimedStart m + wordWidth * n

lemma fileLength_eq (n m : ℕ) : fileLength n m = 2 * wordWidth + wordWidth * (m + n) := by
  rw [fileLength, claimedStart, weightsStart, Nat.mul_add, Nat.add_assoc]

/-- The client with `n` columns and `m` rows that some contents spell behind their header, or the
first thing that is wrong there. -/
def bodyDiagnosis (n m : ℕ) (contents : List UInt8) : Except Failure Client :=
  if contents.length < claimedStart m then
    .error (.truncated .clientFile "vector r" (min (wordWidth * m) Reading.greatestCount))
  else if contents.length < fileLength n m then
    .error (.truncated .clientFile "vector s" (min (wordWidth * n) Reading.greatestCount))
  else if fileLength n m < contents.length then
    .error (.overlong .clientFile (contents.length - fileLength n m))
  else
    .ok ⟨n, m, LittleEndian.decodeWords wordWidth m (contents.drop weightsStart),
      LittleEndian.decodeWords wordWidth n (contents.drop (claimedStart m))⟩

/-- The client that some contents spell, or the first thing that is wrong with them. -/
def diagnosis (contents : List UInt8) : Except Failure Client :=
  let n := announcedCols contents
  let m := announcedRows contents
  if contents.length < wordWidth then
    .error (.truncated .clientFile "dimension n" wordWidth)
  else if contents.length < weightsStart then
    .error (.truncated .clientFile "dimension m" wordWidth)
  else if ¬ValidDimensions n m then .error (.impossibleDimensions n m)
  else bodyDiagnosis n m contents

lemma toNat_ofNat_dimension (start : ℕ) (contents : List UInt8) :
    (UInt64.ofNat (LittleEndian.decode ((contents.drop start).take wordWidth))).toNat =
      fieldAt wordWidth start contents :=
  LittleEndian.toNat_ofNat_decode (List.length_take_le _ _)

section Reading

variable {contents : List UInt8}

lemma readHeader_parses_error (h : contents.length < weightsStart) :
    ∃ rest, readHeader.Parses contents
      (.error (.truncated .clientFile
        (if contents.length < wordWidth then "dimension n" else "dimension m") wordWidth)) rest := by
  unfold readHeader
  refine ⟨[], ?_⟩
  by_cases hfirst : contents.length < wordWidth
  · rw [if_pos hfirst]
    exact (Reading.word_parses_error .clientFile "dimension n" hfirst).bind_error
  · have hsecond : (contents.drop wordWidth).length < wordWidth := by
      rw [List.length_drop]
      unfold weightsStart at h
      omega
    rw [if_neg hfirst]
    apply (Reading.word_parses .clientFile "dimension n" (Nat.le_of_not_lt hfirst)).bind
    exact (Reading.word_parses_error .clientFile "dimension m" hsecond).bind_error

lemma readHeader_parses (h : weightsStart ≤ contents.length) :
    readHeader.Parses contents
      (if ValidDimensions (announcedCols contents) (announcedRows contents) then
        .ok (announcedCols contents, announcedRows contents)
      else .error (.impossibleDimensions (announcedCols contents) (announcedRows contents)))
      (contents.drop weightsStart) := by
  have hfirst : wordWidth ≤ contents.length := by
    unfold weightsStart at h
    omega
  have hsecond : wordWidth ≤ (contents.drop wordWidth).length := by
    rw [List.length_drop]
    unfold weightsStart at h
    omega
  have hcols := toNat_ofNat_dimension 0 contents
  have hrows := toNat_ofNat_dimension wordWidth contents
  rw [List.drop_zero] at hcols
  unfold readHeader
  apply (Reading.word_parses .clientFile "dimension n" hfirst).bind
  apply (Reading.word_parses .clientFile "dimension m" hsecond).bind
  rw [hcols, hrows, List.drop_drop]
  unfold announcedCols announcedRows
  split
  · exact Reading.parses_pure _ _
  · exact Reading.parses_throw _ _

lemma body_parses (n m : ℕ) (h : weightsStart ≤ contents.length) :
    ∃ rest, Reading.Parses
      (do
        let weights ← Reading.words .clientFile "vector r" m
        let claimed ← Reading.words .clientFile "vector s" n
        Reading.expectEnd .clientFile
        return (⟨n, m, weights, claimed⟩ : Client))
      (contents.drop weightsStart) (bodyDiagnosis n m contents) rest := by
  have hlen : (contents.drop weightsStart).length = contents.length - weightsStart :=
    List.length_drop
  have hstart : claimedStart m = weightsStart + wordWidth * m := rfl
  have hend : fileLength n m = claimedStart m + wordWidth * n := rfl
  unfold bodyDiagnosis
  by_cases hweights : contents.length < claimedStart m
  · have hshort : (contents.drop weightsStart).length < wordWidth * m := by omega
    rw [if_pos hweights]
    exact ⟨_, (Reading.words_parses_error .clientFile "vector r" hshort).bind_error⟩
  have hfull : wordWidth * m ≤ (contents.drop weightsStart).length := by omega
  have hskip : (contents.drop weightsStart).drop (wordWidth * m) =
      contents.drop (claimedStart m) := List.drop_drop
  have hfirst := Reading.words_parses .clientFile "vector r" hfull
  have hlen' : (contents.drop (claimedStart m)).length = contents.length - claimedStart m :=
    List.length_drop
  rw [hskip] at hfirst
  rw [if_neg hweights]
  by_cases hclaimed : contents.length < fileLength n m
  · have hshort : (contents.drop (claimedStart m)).length < wordWidth * n := by omega
    rw [if_pos hclaimed]
    exact ⟨_, hfirst.bind (Reading.words_parses_error .clientFile "vector s" hshort).bind_error⟩
  have hfull' : wordWidth * n ≤ (contents.drop (claimedStart m)).length := by omega
  have hskip' : (contents.drop (claimedStart m)).drop (wordWidth * n) =
      contents.drop (fileLength n m) := List.drop_drop
  have hsecond := Reading.words_parses .clientFile "vector s" hfull'
  have hextra : (contents.drop (fileLength n m)).length = contents.length - fileLength n m :=
    List.length_drop
  rw [hskip'] at hsecond
  rw [if_neg hclaimed]
  by_cases hover : fileLength n m < contents.length
  · have hne : contents.drop (fileLength n m) ≠ [] := by
      intro hnil
      rw [hnil, List.length_nil] at hextra
      omega
    have hthird := Reading.expectEnd_parses_error .clientFile hne
    rw [hextra] at hthird
    rw [if_pos hover]
    exact ⟨_, hfirst.bind (hsecond.bind hthird.bind_error)⟩
  · have hnil : contents.drop (fileLength n m) = [] := by
      apply List.length_eq_zero_iff.1
      omega
    rw [hnil] at hsecond
    rw [if_neg hover]
    refine ⟨[], hfirst.bind (hsecond.bind ?_)⟩
    exact (Reading.expectEnd_parses .clientFile).bind (Reading.parses_pure _ _)

/-- Reading ends as the diagnosis says, in whatever pieces the contents come. -/
theorem read_parses (contents : List UInt8) :
    ∃ rest, read.Parses contents (diagnosis contents) rest := by
  unfold read diagnosis
  dsimp only
  by_cases hheader : contents.length < weightsStart
  · obtain ⟨rest, hread⟩ := readHeader_parses_error hheader
    refine ⟨rest, ?_⟩
    by_cases hfirst : contents.length < wordWidth
    · rw [if_pos hfirst] at hread ⊢
      exact hread.bind_error
    · rw [if_neg hfirst] at hread ⊢
      rw [if_pos hheader]
      exact hread.bind_error
  have hfirst : ¬contents.length < wordWidth := by
    unfold weightsStart at hheader
    omega
  have hread := readHeader_parses (Nat.le_of_not_lt hheader)
  rw [if_neg hfirst, if_neg hheader]
  by_cases hvalid : ValidDimensions (announcedCols contents) (announcedRows contents)
  · obtain ⟨rest, hbody⟩ := body_parses (announcedCols contents) (announcedRows contents)
      (Nat.le_of_not_lt hheader)
    rw [if_pos hvalid] at hread
    rw [if_neg (not_not.2 hvalid)]
    exact ⟨rest, hread.bind hbody⟩
  · rw [if_neg hvalid] at hread
    rw [if_pos hvalid]
    exact ⟨_, hread.bind_error⟩

theorem ofContents_eq (contents : List UInt8) : ofContents contents = diagnosis contents := by
  obtain ⟨rest, hread⟩ := read_parses contents
  exact hread.onBytes

end Reading

/-- The contents are as long as their header announces, and it announces a dataset. -/
structure IsFile (contents : List UInt8) : Prop where
  header : weightsStart ≤ contents.length
  valid : ValidDimensions (announcedCols contents) (announcedRows contents)
  length_eq : contents.length = fileLength (announcedCols contents) (announcedRows contents)

/-- What the fields of some contents say. -/
def spelled (contents : List UInt8) : Client where
  n := announcedCols contents
  m := announcedRows contents
  weights :=
    LittleEndian.decodeWords wordWidth (announcedRows contents) (contents.drop weightsStart)
  claimed := LittleEndian.decodeWords wordWidth (announcedCols contents)
    (contents.drop (claimedStart (announcedRows contents)))

lemma diagnosis_eq_ok_iff {contents : List UInt8} {c : Client} :
    diagnosis contents = .ok c ↔ IsFile contents ∧ c = spelled contents := by
  have hstart : ∀ m, weightsStart ≤ claimedStart m := fun m => Nat.le_add_right _ _
  have hend : ∀ n m, claimedStart m ≤ fileLength n m := fun n m => Nat.le_add_right _ _
  have hheader : wordWidth ≤ weightsStart := by decide
  unfold diagnosis bodyDiagnosis
  dsimp only
  constructor
  · intro h
    split at h
    · cases h
    split at h
    · cases h
    split at h
    · cases h
    split at h
    · cases h
    split at h
    · cases h
    split at h
    · cases h
    rename_i _ hlen hvalid _ hshort hover
    cases h
    refine ⟨⟨Nat.le_of_not_lt hlen, not_not.1 hvalid, ?_⟩, rfl⟩
    omega
  · rintro ⟨file, rfl⟩
    have hlen := file.length_eq
    have hstart := hstart (announcedRows contents)
    have hend := hend (announcedCols contents) (announcedRows contents)
    rw [if_neg (by omega), if_neg (by omega), if_neg (not_not.2 file.valid), if_neg (by omega),
      if_neg (by omega), if_neg (by omega)]
    rfl

theorem ofContents_eq_ok_iff {contents : List UInt8} {c : Client} :
    ofContents contents = .ok c ↔ IsFile contents ∧ c = spelled contents := by
  rw [ofContents_eq, diagnosis_eq_ok_iff]

/-- The fields of a client, one after the other. -/
def contents (c : Client) : List UInt8 :=
  LittleEndian.encode wordWidth c.n ++ LittleEndian.encode wordWidth c.m ++
    LittleEndian.encodeWords wordWidth c.weights ++ LittleEndian.encodeWords wordWidth c.claimed

lemma length_contents (c : Client) : c.contents.length =
    2 * wordWidth + wordWidth * (c.weights.length + c.claimed.length) := by
  simp only [contents, List.length_append, LittleEndian.length_encode,
    LittleEndian.length_encodeWords, Nat.two_mul, Nat.mul_add, Nat.add_assoc]

/-- Contents of the right length consist of the fields of the client that they spell. -/
lemma contents_spelled {bytes : List UInt8} (file : IsFile bytes) :
    (spelled bytes).contents = bytes := by
  have hlen := file.length_eq
  have hheader : wordWidth + wordWidth ≤ bytes.length := file.header
  have hend : fileLength (announcedCols bytes) (announcedRows bytes) =
      wordWidth + wordWidth + wordWidth * announcedRows bytes +
        wordWidth * announcedCols bytes := rfl
  have hcols : LittleEndian.encode wordWidth (announcedCols bytes) = bytes.take wordWidth := by
    apply LittleEndian.encode_decode
    rw [List.drop_zero, List.length_take]
    omega
  have hrows : LittleEndian.encode wordWidth (announcedRows bytes) =
      (bytes.drop wordWidth).take wordWidth := by
    apply LittleEndian.encode_decode
    rw [List.length_take, List.length_drop]
    omega
  have hweights : LittleEndian.encodeWords wordWidth (spelled bytes).weights =
      (bytes.drop (wordWidth + wordWidth)).take (wordWidth * announcedRows bytes) := by
    apply LittleEndian.encodeWords_decodeWords (Nat.le_refl _)
    rw [List.length_drop]
    unfold weightsStart
    omega
  have hclaimed : LittleEndian.encodeWords wordWidth (spelled bytes).claimed =
      bytes.drop (wordWidth + wordWidth + wordWidth * announcedRows bytes) := by
    have hfull : (bytes.drop (claimedStart (announcedRows bytes))).length =
        wordWidth * announcedCols bytes := by
      rw [List.length_drop, hlen]
      unfold fileLength
      omega
    unfold spelled
    dsimp only
    rw [LittleEndian.encodeWords_decodeWords (Nat.le_refl _) (Nat.le_of_eq hfull.symm), ← hfull,
      List.take_length]
    rfl
  have hn : (spelled bytes).n = announcedCols bytes := rfl
  have hm : (spelled bytes).m = announcedRows bytes := rfl
  rw [contents, hn, hm, hcols, hrows, hweights, hclaimed, ← List.take_add, ← List.take_add,
    List.take_append_drop]

/-- The vectors are as long as the dimensions say. -/
structure Filled (c : Client) : Prop where
  length_weights : c.weights.length = c.m
  length_claimed : c.claimed.length = c.n

lemma filled_spelled (bytes : List UInt8) : (spelled bytes).Filled :=
  ⟨LittleEndian.length_decodeWords _ _ _, LittleEndian.length_decodeWords _ _ _⟩

lemma Filled.length_contents {c : Client} (filled : c.Filled) :
    c.contents.length = 2 * wordWidth + wordWidth * (c.m + c.n) := by
  rw [Client.length_contents, filled.length_weights, filled.length_claimed]

/-- The fields of a client spell that client. -/
lemma Filled.spelled_contents {c : Client} (filled : c.Filled) (valid : ValidDimensions c.n c.m) :
    IsFile c.contents ∧ c = spelled c.contents := by
  have hlen : c.contents.length = fileLength c.n c.m := by
    rw [filled.length_contents, fileLength_eq]
  obtain ⟨hweights, hclaimed⟩ := filled
  obtain ⟨hn, hm⟩ := valid.lt_size
  have heq : c.contents = LittleEndian.encode wordWidth c.n ++
      (LittleEndian.encode wordWidth c.m ++ (LittleEndian.encodeWords wordWidth c.weights ++
        LittleEndian.encodeWords wordWidth c.claimed)) := by
    simp only [contents, List.append_assoc]
  generalize c.contents = bytes at heq hlen ⊢
  -- the four fields are taken off the front one after the other
  have hfirst : (LittleEndian.encode wordWidth c.n).length = wordWidth :=
    LittleEndian.length_encode _ _
  have hsecond : (LittleEndian.encode wordWidth c.m).length = wordWidth :=
    LittleEndian.length_encode _ _
  have hthird : (LittleEndian.encodeWords wordWidth c.weights).length = wordWidth * c.m := by
    rw [LittleEndian.length_encodeWords, hweights]
  have hcols : announcedCols bytes = c.n := by
    unfold announcedCols fieldAt
    rw [heq, List.drop_zero, List.take_left' hfirst, LittleEndian.decode_encode hn]
  have hbehind : bytes.drop wordWidth = LittleEndian.encode wordWidth c.m ++
      (LittleEndian.encodeWords wordWidth c.weights ++
        LittleEndian.encodeWords wordWidth c.claimed) := by
    rw [heq, List.drop_left' hfirst]
  have hrows : announcedRows bytes = c.m := by
    unfold announcedRows fieldAt
    rw [hbehind, List.take_left' hsecond, LittleEndian.decode_encode hm]
  have hbody : bytes.drop weightsStart = LittleEndian.encodeWords wordWidth c.weights ++
      LittleEndian.encodeWords wordWidth c.claimed := by
    have hskip : bytes.drop weightsStart = (bytes.drop wordWidth).drop wordWidth := by
      rw [List.drop_drop]
      rfl
    rw [hskip, hbehind, List.drop_left' hsecond]
  have htail : bytes.drop (claimedStart c.m) =
      LittleEndian.encodeWords wordWidth c.claimed := by
    have hskip : bytes.drop (claimedStart c.m) =
        (bytes.drop weightsStart).drop (wordWidth * c.m) := List.drop_drop.symm
    rw [hskip, hbody, List.drop_left' hthird]
  constructor
  · refine ⟨?_, by rwa [hcols, hrows], by rwa [hcols, hrows]⟩
    rw [hlen]
    unfold fileLength claimedStart
    omega
  · have hback := LittleEndian.decodeWords_encodeWords c.claimed []
    rw [List.append_nil, hclaimed] at hback
    unfold spelled
    rw [hcols, hrows, hbody, htail, hback, ← hweights, LittleEndian.decodeWords_encodeWords,
      hweights]

/-- A client is read from its fields and nothing else, if it is of some dataset and its vectors have
the right lengths. -/
theorem ofContents_eq_ok_iff_contents {bytes : List UInt8} {c : Client} :
    ofContents bytes = .ok c ↔ ValidDimensions c.n c.m ∧ c.Filled ∧ bytes = c.contents := by
  rw [ofContents_eq_ok_iff]
  constructor
  · rintro ⟨file, rfl⟩
    exact ⟨file.valid, filled_spelled bytes, (contents_spelled file).symm⟩
  · rintro ⟨valid, filled, rfl⟩
    exact filled.spelled_contents valid

section Writing

/-- A buffer that is filled up to some place takes what is written up to the next one. -/
lemma writeAt?_blank {front : List UInt8} {start : ℕ} (hstart : front.length = start)
    (patch : List UInt8) (blank stop : ℕ) :
    writeAt? start stop patch (front ++ List.replicate blank 0) =
      if start + patch.length = stop ∧ patch.length ≤ blank then
        some (front ++ patch ++ List.replicate (blank - patch.length) 0)
      else none := by
  subst hstart
  have hlen : (front ++ List.replicate blank (0 : UInt8)).length = front.length + blank := by
    rw [List.length_append, List.length_replicate]
  have hiff : (front.length ≤ stop ∧ stop ≤ front.length + blank ∧
      patch.length = stop - front.length) ↔
        front.length + patch.length = stop ∧ patch.length ≤ blank := by omega
  rw [writeAt?, hlen, overwrite, List.take_left, List.drop_append, List.drop_replicate,
    List.drop_eq_nil_of_le (Nat.le_add_right _ _), List.nil_append, Nat.add_sub_cancel_left]
  simp only [hiff]

/-- The two dimensions are written to the front of any buffer that has room for them. -/
lemma writeAt?_header (n m blank : ℕ) :
    writeAt? 0 wordWidth (LittleEndian.encode wordWidth n)
      (List.replicate (2 * wordWidth + blank) 0) =
        some (LittleEndian.encode wordWidth n ++ List.replicate (wordWidth + blank) 0) ∧
    writeAt? wordWidth (2 * wordWidth) (LittleEndian.encode wordWidth m)
      (LittleEndian.encode wordWidth n ++ List.replicate (wordWidth + blank) 0) =
        some (LittleEndian.encode wordWidth n ++ LittleEndian.encode wordWidth m ++
          List.replicate blank 0) := by
  have hcols := writeAt?_blank (List.length_nil (α := UInt8)) (LittleEndian.encode wordWidth n)
    (2 * wordWidth + blank) wordWidth
  have hrows := writeAt?_blank (LittleEndian.length_encode wordWidth n)
    (LittleEndian.encode wordWidth m) (wordWidth + blank) (2 * wordWidth)
  have hrest : 2 * wordWidth + blank - wordWidth = wordWidth + blank := by omega
  rw [LittleEndian.length_encode, if_pos ⟨Nat.zero_add _, by omega⟩, List.nil_append,
    List.nil_append, hrest] at hcols
  rw [LittleEndian.length_encode, if_pos ⟨(Nat.two_mul _).symm, Nat.le_add_right _ _⟩,
    Nat.add_sub_cancel_left] at hrows
  exact ⟨hcols, hrows⟩

/-- Room for `count` words takes a vector iff it has just so many. -/
lemma writeAt?_words {front : List UInt8} {start : ℕ} (hstart : front.length = start)
    (words : List Word) (count more : ℕ) :
    writeAt? start (start + wordWidth * count) (LittleEndian.encodeWords wordWidth words)
      (front ++ List.replicate (wordWidth * (count + more)) 0) =
        if words.length = count then
          some (front ++ LittleEndian.encodeWords wordWidth words ++
            List.replicate (wordWidth * more) 0)
        else none := by
  rw [writeAt?_blank hstart, LittleEndian.length_encodeWords]
  by_cases hlen : words.length = count
  · rw [if_pos hlen, hlen, if_pos ⟨rfl, Nat.mul_le_mul_left _ (Nat.le_add_right _ _)⟩, Nat.mul_add,
      Nat.add_sub_cancel_left]
  · have hpos : 0 < wordWidth := by decide
    rw [if_neg hlen, if_neg]
    exact fun h => hlen (Nat.eq_of_mul_eq_mul_left hpos (Nat.add_left_cancel h.1))

variable {c : Client} {overflow : Overflow} {space : Space}

lemma count?_of_lt {size : ℕ} (h : size < UInt64.size) : overflow.count? size = some size :=
  if_pos h

lemma encodedLength?_of_lt (hsize : 2 * wordWidth + wordWidth * (c.m + c.n) < UInt64.size) :
    c.encodedLength? overflow = some (2 * wordWidth + wordWidth * (c.m + c.n)) := count?_of_lt hsize

/-- A client has a file iff there is space for a buffer of the size that the dimensions give and the
vectors fill it from one place to the next. -/
theorem toBytes?_eq (hsize : 2 * wordWidth + wordWidth * (c.m + c.n) < UInt64.size) :
    c.toBytes? overflow space =
      if space.Holds (2 * wordWidth + wordWidth * (c.m + c.n)) ∧ c.weights.length = c.m ∧
        c.claimed.length = c.n then some c.contents else none := by
  have hstart : overflow.count? (2 * wordWidth + wordWidth * c.m) =
      some (2 * wordWidth + wordWidth * c.m) := by
    rw [Nat.mul_add] at hsize
    exact count?_of_lt (by omega)
  obtain ⟨hcols, hrows⟩ := writeAt?_header c.n c.m (wordWidth * (c.m + c.n))
  have hheader : (LittleEndian.encode wordWidth c.n ++ LittleEndian.encode wordWidth c.m).length =
      2 * wordWidth := by
    rw [List.length_append, LittleEndian.length_encode, LittleEndian.length_encode, Nat.two_mul]
  rw [toBytes?, encodedLength?_of_lt hsize, hstart]
  simp only [Option.bind_eq_bind, Option.bind_some]
  by_cases held : space.Holds (2 * wordWidth + wordWidth * (c.m + c.n))
  swap
  · rw [Space.allot, if_neg held, if_neg fun h => held h.1]
    rfl
  have hallot : (space.allot (2 * wordWidth + wordWidth * (c.m + c.n))).toOption = some () := by
    rw [Space.allot, if_pos held]
    rfl
  rw [hallot, Option.bind_some, hcols, Option.bind_some, hrows, Option.bind_some,
    writeAt?_words hheader c.weights c.m c.n]
  by_cases hweights : c.weights.length = c.m
  swap
  · rw [if_neg hweights, if_neg fun h => hweights h.2.1]
    rfl
  -- the claimed sums start where the weights end, since there are as many weights as rows
  have hbody : (LittleEndian.encode wordWidth c.n ++ LittleEndian.encode wordWidth c.m ++
      LittleEndian.encodeWords wordWidth c.weights).length =
        2 * wordWidth + wordWidth * c.m := by
    rw [List.length_append, hheader, LittleEndian.length_encodeWords, hweights]
  have hclaimed := writeAt?_words hbody c.claimed c.n 0
  rw [Nat.add_zero, Nat.mul_zero, List.replicate_zero, List.append_nil, Nat.add_assoc,
    ← Nat.mul_add] at hclaimed
  rw [if_pos hweights, Option.bind_some, hclaimed]
  simp only [held, hweights, true_and]
  rfl

/-- If its own fields have space, a client has no file iff they do not fit its dimensions. -/
lemma toBytes?_eq_none_iff (hsize : 2 * wordWidth + wordWidth * (c.m + c.n) < UInt64.size)
    (held : space.Holds (2 * wordWidth + wordWidth * (c.weights.length + c.claimed.length))) :
    c.toBytes? overflow space = none ↔ c.weights.length ≠ c.m ∨ c.claimed.length ≠ c.n := by
  rw [toBytes?_eq hsize, ← not_and_or]
  by_cases hfilled : c.weights.length = c.m ∧ c.claimed.length = c.n
  · rw [hfilled.1, hfilled.2] at held
    simp [held, hfilled]
  · simp [hfilled]

lemma Filled.toBytes?_eq (filled : c.Filled)
    (hsize : 2 * wordWidth + wordWidth * (c.m + c.n) < UInt64.size)
    (held : space.Holds (2 * wordWidth + wordWidth * (c.m + c.n))) :
    c.toBytes? overflow space = some c.contents := by
  rw [Client.toBytes?_eq hsize, if_pos ⟨held, filled.length_weights, filled.length_claimed⟩]

end Writing

lemma ofVectors_eq_ok {weights claimed : List Word} {c : Client}
    (h : ofVectors weights claimed = .ok c) : ValidDimensions c.n c.m ∧ c.Filled := by
  unfold ofVectors at h
  split at h
  · rename_i valid
    cases h
    exact ⟨valid, rfl, rfl⟩
  · cases h

/-- The client was made of two vectors or read from some contents. -/
def Made (c : Client) : Prop :=
  (∃ weights claimed, ofVectors weights claimed = .ok c) ∨ ∃ contents, ofContents contents = .ok c

lemma Made.sound {c : Client} (made : c.Made) : ValidDimensions c.n c.m ∧ c.Filled := by
  obtain ⟨weights, claimed, h⟩ | ⟨bytes, h⟩ := made
  · exact ofVectors_eq_ok h
  · obtain ⟨valid, filled, -⟩ := ofContents_eq_ok_iff_contents.1 h
    exact ⟨valid, filled⟩

/-- Contents that reach beyond the header announce the same as what they are cut from. -/
lemma announced_take {count : ℕ} (h : weightsStart ≤ count) (contents : List UInt8) :
    announcedCols (contents.take count) = announcedCols contents ∧
      announcedRows (contents.take count) = announcedRows contents := by
  have hheader : weightsStart = wordWidth + wordWidth := rfl
  exact ⟨fieldAt_take (by omega) contents, fieldAt_take (by omega) contents⟩

/-- The header decides how long a file is, so no file goes on where another one ends. -/
lemma IsFile.eq_of_isPrefix {first second : List UInt8} (hfirst : IsFile first)
    (hsecond : IsFile second) (hbegins : first <+: second) : first = second := by
  -- both dimensions stand in the part that the files share, and they decide the length
  have htake : first = second.take first.length := List.prefix_iff_eq_take.1 hbegins
  obtain ⟨hcols, hrows⟩ := announced_take hfirst.header second
  rw [← htake] at hcols hrows
  apply hbegins.eq_of_length
  rw [hfirst.length_eq, hsecond.length_eq, hcols, hrows]

/-- A client of some dataset is written as one file, of the length that its dimensions give, and is
read back from that file and no other. Whatever is read is written back as it was, and no file is
the start of a longer one. A client whose fields were edited has no file iff the lengths of its
vectors are not its dimensions. What becomes of sizes that are too great does not matter, as the
size of the file can be counted, and there has to be space for the fields themselves. -/
theorem contents_bijective (overflow : Overflow) (space : Space) :
    (∀ c : Client, c.Made → 2 * wordWidth + wordWidth * (c.m + c.n) < UInt64.size →
      space.Holds (2 * wordWidth + wordWidth * (c.m + c.n)) →
        ∃ contents, c.toBytes? overflow space = some contents ∧
          c.encodedLength? overflow = some contents.length ∧
          ofContents contents = .ok c ∧ ∀ other, ofContents other = .ok c → other = contents) ∧
    (∀ (contents : List UInt8) (c : Client), ofContents contents = .ok c →
      c.weights.length = c.m ∧ c.claimed.length = c.n ∧
      (contents.length < UInt64.size → space.Holds contents.length →
        c.toBytes? overflow space = some contents)) ∧
    (∀ (first second : List UInt8) (c d : Client), ofContents first = .ok c →
      ofContents second = .ok d → first <+: second → first = second) ∧
    ∀ c : Client, 2 * wordWidth + wordWidth * (c.m + c.n) < UInt64.size →
      space.Holds (2 * wordWidth + wordWidth * (c.weights.length + c.claimed.length)) →
        (c.toBytes? overflow space = none ↔ c.weights.length ≠ c.m ∨ c.claimed.length ≠ c.n) := by
  refine ⟨?_, ?_, ?_, fun c hsize held => toBytes?_eq_none_iff hsize held⟩
  · intro c made hsize held
    obtain ⟨valid, filled⟩ := made.sound
    refine ⟨c.contents, filled.toBytes?_eq hsize held, ?_,
      ofContents_eq_ok_iff_contents.2 ⟨valid, filled, rfl⟩, fun other hother => ?_⟩
    · rw [encodedLength?_of_lt hsize, filled.length_contents]
    · exact (ofContents_eq_ok_iff_contents.1 hother).2.2
  · intro contents c h
    obtain ⟨-, filled, rfl⟩ := ofContents_eq_ok_iff_contents.1 h
    refine ⟨filled.length_weights, filled.length_claimed, fun hsize held => ?_⟩
    rw [filled.length_contents] at hsize held
    exact filled.toBytes?_eq hsize held
  · intro first second c d hfirst hsecond hbegins
    have hfile := (ofContents_eq_ok_iff.1 hfirst).1
    exact hfile.eq_of_isPrefix (ofContents_eq_ok_iff.1 hsecond).1 hbegins

/-- A client with more columns than rows, and a first weight that is not reduced. -/
def wideClient : Client := ⟨3, 1, [144115188075855860], [4, 6, 256]⟩

theorem contents_bijective_sample :
    ofVectors [144115188075855860] [4, 6, 256] = .ok wideClient ∧
    ofContents ([3, 0, 0, 0, 0, 0, 0, 0] ++ [1, 0, 0, 0, 0, 0, 0, 0] ++
      [244, 255, 255, 255, 255, 255, 255, 1] ++ [4, 0, 0, 0, 0, 0, 0, 0] ++
      [6, 0, 0, 0, 0, 0, 0, 0] ++ [0, 1, 0, 0, 0, 0, 0, 0]) = .ok wideClient ∧
    toBytes? { wideClient with m := 2 } .wraps ⟨some 48⟩ = none ∧
    toBytes? { wideClient with n := 1, m := 3 } .wraps ⟨some 48⟩ = none := by
  have made : ofVectors [144115188075855860] [4, 6, 256] = .ok wideClient := rfl
  obtain ⟨hmade, -, -, hnone⟩ := contents_bijective .wraps ⟨some 48⟩
  obtain ⟨contents, hbytes, -, hread, -⟩ :=
    hmade wideClient (Or.inl ⟨_, _, made⟩) (by decide) (by decide)
  obtain rfl := Option.some.inj hbytes
  refine ⟨made, hread, ?_, ?_⟩
  · rw [hnone { wideClient with m := 2 } (by decide) (by decide)]
    exact Or.inl (by decide)
  · rw [hnone { wideClient with n := 1, m := 3 } (by decide) (by decide)]
    exact Or.inr (by decide)

/-- Where a size that is too great wraps, a client can have a file that is not its own. -/
example : toBytes? ⟨1, 2305843009213693952, [], [5]⟩ .wraps = some ([1, 0, 0, 0, 0, 0, 0, 0] ++
    [0, 0, 0, 0, 0, 0, 0, 32] ++ [5, 0, 0, 0, 0, 0, 0, 0]) := by decide

end Client

end MatrixAudit
