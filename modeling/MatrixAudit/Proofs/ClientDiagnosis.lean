import MatrixAudit.Proofs.ClientFile

/-!
# Diagnosis of a client file

What is wrong with some contents depends on their length and on the two words of the header. A file
that is cut short keeps as much of its header as is left, and one that goes on keeps all of it. So
the cut is found as an early end, and what goes on is counted.
-/

namespace MatrixAudit

namespace Client

variable {contents : List UInt8}

lemma weightsStart_le_fileLength (n m : ℕ) : weightsStart ≤ fileLength n m :=
  (Nat.le_add_right _ _).trans (Nat.le_add_right _ _)

/-- Contents that end before their last field are diagnosed as cut short. -/
lemma diagnosis_of_lt
    (valid : weightsStart ≤ contents.length →
      ValidDimensions (announcedCols contents) (announcedRows contents))
    (h : contents.length < fileLength (announcedCols contents) (announcedRows contents)) :
    ∃ context expected, diagnosis contents = .error (.truncated .clientFile context expected) := by
  unfold diagnosis
  dsimp only
  by_cases hfirst : contents.length < wordWidth
  · exact ⟨_, _, if_pos hfirst⟩
  by_cases hsecond : contents.length < weightsStart
  · exact ⟨_, _, by rw [if_neg hfirst, if_pos hsecond]⟩
  have hvalid := valid (Nat.le_of_not_lt hsecond)
  rw [if_neg hfirst, if_neg hsecond, if_neg (not_not.2 hvalid), bodyDiagnosis]
  by_cases hweights : contents.length < claimedStart (announcedRows contents)
  · exact ⟨_, _, if_pos hweights⟩
  · exact ⟨_, _, by rw [if_neg hweights, if_pos h]⟩

/-- Contents that go on behind their last field are diagnosed with the number of bytes too many. -/
lemma diagnosis_of_gt
    (valid : ValidDimensions (announcedCols contents) (announcedRows contents))
    (h : fileLength (announcedCols contents) (announcedRows contents) < contents.length) :
    diagnosis contents = .error (.overlong .clientFile
      (contents.length - fileLength (announcedCols contents) (announcedRows contents))) := by
  have hheader := weightsStart_le_fileLength (announcedCols contents) (announcedRows contents)
  have hfirst : wordWidth ≤ weightsStart := by decide
  have hweights : claimedStart (announcedRows contents) ≤
      fileLength (announcedCols contents) (announcedRows contents) := Nat.le_add_right _ _
  unfold diagnosis bodyDiagnosis
  dsimp only
  rw [if_neg (by omega), if_neg (by omega), if_neg (not_not.2 valid), if_neg (by omega),
    if_neg (by omega), if_pos h]

/-- A file cut short anywhere ends early. -/
theorem diagnosis_of_isPrefix {front : List UInt8} (file : IsFile contents)
    (hbegins : front <+: contents) (hne : front ≠ contents) :
    ∃ context expected, diagnosis front = .error (.truncated .clientFile context expected) := by
  have htake : front = contents.take front.length := List.prefix_iff_eq_take.1 hbegins
  have hshort : front.length < contents.length := by
    apply Nat.lt_of_le_of_ne hbegins.length_le
    intro hlen
    exact hne (hbegins.eq_of_length hlen)
  by_cases hheader : weightsStart ≤ front.length
  · obtain ⟨hcols, hrows⟩ := announced_take hheader contents
    rw [← htake] at hcols hrows
    apply diagnosis_of_lt
    · intro _
      rw [hcols, hrows]
      exact file.valid
    · rwa [hcols, hrows, ← file.length_eq]
  · apply diagnosis_of_lt
    · intro h
      exact absurd h hheader
    · exact (Nat.lt_of_not_le hheader).trans_le (weightsStart_le_fileLength _ _)

/-- A file that goes on has exactly the bytes behind its end too many. -/
theorem diagnosis_append {extra : List UInt8} (file : IsFile contents) (hne : extra ≠ []) :
    diagnosis (contents ++ extra) = .error (.overlong .clientFile extra.length) := by
  obtain ⟨hcols, hrows⟩ := announced_take file.header (contents ++ extra)
  rw [List.take_left] at hcols hrows
  have hlen : (contents ++ extra).length =
      fileLength (announcedCols (contents ++ extra)) (announcedRows (contents ++ extra)) +
        extra.length := by
    rw [List.length_append, file.length_eq, hcols, hrows]
  have hextra : 0 < extra.length := List.length_pos_iff.2 hne
  have hvalid := file.valid
  rw [hcols, hrows] at hvalid
  rw [diagnosis_of_gt hvalid (by omega), hlen, Nat.add_sub_cancel_left]

/-- Reading some contents that end cleanly, in whatever pieces they come, ends as their diagnosis
says. Contents that are read in full are a short file when they are cut anywhere, and have exactly
the extra bytes too many when they go on. -/
theorem read_diagnosed :
    (∀ contents : List UInt8, ∃ rest, read.Parses contents (diagnosis contents) rest) ∧
    (∀ (contents front : List UInt8) (c : Client), ofContents contents = .ok c →
      front <+: contents → front ≠ contents →
        ∃ context expected,
          ofContents front = .error (.truncated .clientFile context expected)) ∧
    ∀ (contents extra : List UInt8) (c : Client), ofContents contents = .ok c → extra ≠ [] →
      ofContents (contents ++ extra) = .error (.overlong .clientFile extra.length) := by
  refine ⟨read_parses, ?_, ?_⟩
  · intro contents front c h hbegins hne
    have file : IsFile contents := (ofContents_eq_ok_iff.1 h).1
    rw [ofContents_eq]
    exact diagnosis_of_isPrefix file hbegins hne
  · intro contents extra c h hne
    have file : IsFile contents := (ofContents_eq_ok_iff.1 h).1
    rw [ofContents_eq]
    exact diagnosis_append file hne

/-- The file of one weight and one claimed sum. -/
def smallFile : List UInt8 := [1, 0, 0, 0, 0, 0, 0, 0] ++ [1, 0, 0, 0, 0, 0, 0, 0] ++
  [5, 0, 0, 0, 0, 0, 0, 0] ++ [0, 1, 0, 0, 0, 0, 0, 0]

theorem read_diagnosed_sample :
    ofContents smallFile = .ok ⟨1, 1, [5], [256]⟩ ∧
    (∃ context expected,
      ofContents (smallFile.take 31) = .error (.truncated .clientFile context expected)) ∧
    ofContents (smallFile ++ [0, 0, 7]) = .error (.overlong .clientFile 3) ∧
    ∀ s : Source, s.Steady → s.fault = none → s.bytes = smallFile.take 31 →
      ∃ next, read s = .error (.truncated .clientFile "vector s" 8) next := by
  have hsmall : ofContents smallFile = .ok ⟨1, 1, [5], [256]⟩ := by
    rw [ofContents_eq]
    rfl
  obtain ⟨hread, hcut, hextra⟩ := read_diagnosed
  refine ⟨hsmall, ?_, ?_, ?_⟩
  · exact hcut smallFile (smallFile.take 31) _ hsmall (List.take_prefix _ _) (by decide)
  · exact hextra smallFile [0, 0, 7] _ hsmall (by decide)
  · intro s steady clean hbytes
    obtain ⟨rest, hparses⟩ := hread (smallFile.take 31)
    obtain ⟨reads, h⟩ := hparses s steady clean hbytes
    exact ⟨_, h⟩

end Client

end MatrixAudit
