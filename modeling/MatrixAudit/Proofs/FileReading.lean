import MatrixAudit.Proofs.Transport

/-!
# Reading bytes to their end

On bytes that end cleanly a reading has one outcome, in whatever pieces they come. What a reading
built from others brings follows from what the parts bring, one after the other.
-/

namespace MatrixAudit

namespace Source

variable {s : Source}

lemma cause_of_clean (clean : s.fault = none) : s.fault.getD .inputEnded = .inputEnded := by
  rw [clean, Option.getD_none]

/-- Everything that is left is counted, and nothing is left then. -/
theorem drain_of_clean (steady : s.Steady) (clean : s.fault = none) (count : ℕ) :
    ∃ reads, s.drain count = .ok (count + s.bytes.length) { s with bytes := [], reads } := by
  have hroom : 0 < drainRoom := by decide
  fun_induction drain s count with
  | case1 s count next arrival ih =>
    obtain ⟨-, rfl⟩ := read_interrupted arrival
    exact ih steady clean
  | case2 s count fault next arrival =>
    have hfault := (read_failed arrival).2.1
    rw [clean] at hfault
    cases hfault
  | case3 s count next arrival =>
    obtain ⟨hbytes, -, rfl⟩ := read_nothing steady hroom arrival
    exact ⟨s.reads + 1, by simp only [hbytes, List.length_nil, Nat.add_zero]⟩
  | case4 s count byte piece next arrival ih =>
    have hlen := read_bytes_length arrival
    obtain ⟨-, rfl⟩ := read_bytes arrival
    obtain ⟨reads, hdrain⟩ := ih steady clean
    have hcount : count + (byte :: piece).length +
        (s.bytes.drop (s.allowance drainRoom)).length = count + s.bytes.length := by
      dsimp only at hlen
      omega
    exact ⟨reads, by rw [hdrain, hcount]⟩

end Source

namespace Reading

variable {α β : Type}

/-- The reading brings `result` on some bytes that end cleanly, and leaves `rest` of them. -/
def Parses (reading : Reading α) (bytes : List UInt8) (result : Except Failure α)
    (rest : List UInt8) : Prop :=
  ∀ s : Source, s.Steady → s.fault = none → s.bytes = bytes → ∃ reads, reading s =
    match result with
    | .ok value => .ok value { s with bytes := rest, reads }
    | .error failure => .error failure { s with bytes := rest, reads }

variable {reading : Reading α} {bytes rest : List UInt8} {result : Except Failure α}

lemma Parses.onBytes (h : reading.Parses bytes result rest) : reading.onBytes bytes = result := by
  have steady : Source.Steady { bytes } := fun hchunk => by cases hchunk
  obtain ⟨reads, hread⟩ := h { bytes } steady rfl rfl
  unfold Reading.onBytes
  have hrun : reading.run { bytes } = reading { bytes } := rfl
  rw [hrun, hread]
  cases result with
  | ok value => rfl
  | error failure => rfl

lemma parses_pure (value : α) (bytes : List UInt8) :
    (pure value : Reading α).Parses bytes (.ok value) bytes := by
  rintro s - - rfl
  exact ⟨s.reads, rfl⟩

lemma parses_throw (failure : Failure) (bytes : List UInt8) :
    (throw failure : Reading α).Parses bytes (.error failure) bytes := by
  rintro s - - rfl
  exact ⟨s.reads, rfl⟩

lemma parses_ofExcept (result : Except Failure α) (bytes : List UInt8) :
    (ofExcept result).Parses bytes result bytes := by
  cases result with
  | ok value => exact parses_pure value bytes
  | error failure => exact parses_throw failure bytes

lemma Parses.bind {value : α} {middle : List UInt8} {next : α → Reading β}
    {result : Except Failure β} (first : reading.Parses bytes (.ok value) middle)
    (second : (next value).Parses middle result rest) :
    (reading >>= next).Parses bytes result rest := by
  intro s steady clean hbytes
  obtain ⟨used, hfirst⟩ := first s steady clean hbytes
  obtain ⟨reads, hsecond⟩ := second { s with bytes := middle, reads := used } steady clean rfl
  exact ⟨reads, (bind_of_ok hfirst).trans hsecond⟩

lemma Parses.bind_error {failure : Failure} {next : α → Reading β}
    (first : reading.Parses bytes (.error failure) rest) :
    (reading >>= next).Parses bytes (.error failure) rest := by
  intro s steady clean hbytes
  obtain ⟨reads, hfirst⟩ := first s steady clean hbytes
  exact ⟨reads, bind_of_error hfirst⟩

section Fields

variable (origin : Origin) (context : String)

lemma exactly_parses (expected : ℕ) {count : ℕ} (h : count ≤ bytes.length) :
    (exactly origin context expected count).Parses bytes (.ok (bytes.take count))
      (bytes.drop count) := by
  rintro s steady - rfl
  exact exactly_of_le origin context expected steady h

lemma exactly_parses_error (expected : ℕ) {count : ℕ} (h : bytes.length < count) :
    (exactly origin context expected count).Parses bytes
      (.error (.ofRead origin context expected .inputEnded)) [] := by
  rintro s steady clean rfl
  obtain ⟨reads, hread⟩ := exactly_of_lt origin context expected steady h
  rw [Source.cause_of_clean clean] at hread
  exact ⟨reads, hread⟩

lemma word_parses (h : wordWidth ≤ bytes.length) :
    (word origin context).Parses bytes
      (.ok (UInt64.ofNat (LittleEndian.decode (bytes.take wordWidth)))) (bytes.drop wordWidth) :=
  (exactly_parses origin context wordWidth h).bind (parses_pure _ _)

lemma word_parses_error (h : bytes.length < wordWidth) :
    (word origin context).Parses bytes (.error (.ofRead origin context wordWidth .inputEnded)) [] :=
  (exactly_parses_error origin context wordWidth h).bind_error

lemma words_parses {length : ℕ} (h : wordWidth * length ≤ bytes.length) :
    (words origin context length).Parses bytes
      (.ok (LittleEndian.decodeWords wordWidth length bytes))
      (bytes.drop (wordWidth * length)) := by
  rintro s steady - rfl
  exact wordBlocks_of_le origin context _ steady [] h

lemma words_parses_error {length : ℕ} (h : bytes.length < wordWidth * length) :
    (words origin context length).Parses bytes
      (.error (.ofRead origin context (min (wordWidth * length) greatestCount) .inputEnded)) [] := by
  rintro s steady clean rfl
  obtain ⟨reads, hread⟩ := wordBlocks_of_lt origin context
    (min (wordWidth * length) greatestCount) steady [] h
  rw [Source.cause_of_clean clean] at hread
  exact ⟨reads, hread⟩

lemma remaining_parses (bytes : List UInt8) :
    (remaining origin).Parses bytes (.ok bytes.length) [] := by
  rintro s steady clean rfl
  obtain ⟨reads, hdrain⟩ := Source.drain_of_clean steady clean 0
  unfold remaining
  rw [hdrain, Nat.zero_add]
  exact ⟨reads, rfl⟩

lemma expectEnd_parses : (expectEnd origin).Parses [] (.ok ()) [] :=
  (remaining_parses origin []).bind (parses_pure () [])

lemma expectEnd_parses_error (h : bytes ≠ []) :
    (expectEnd origin).Parses bytes (.error (.overlong origin bytes.length)) [] := by
  have hne : bytes.length ≠ 0 := fun hzero => h (List.length_eq_zero_iff.1 hzero)
  unfold expectEnd
  apply (remaining_parses origin bytes).bind
  rw [if_neg hne]
  exact parses_throw _ _

end Fields

end Reading

end MatrixAudit
