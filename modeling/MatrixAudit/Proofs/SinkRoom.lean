import MatrixAudit.Proofs.Transport

/-!
# Sinks that run full

A write that is cut short has left those first bytes for which there was room. So what a sink holds
after several writes, whether they succeeded or not, is the start of all that they offered.
-/

namespace MatrixAudit

namespace Sink

variable {s next : Sink} {offer : List UInt8}

instance (s : Sink) (count : ℕ) : Decidable (s.HasRoom count) :=
  inferInstanceAs (Decidable (∀ limit ∈ s.limit, s.taken.size + count ≤ limit))

/-- The part of some bytes for which the sink has room. -/
def fitting (s : Sink) (offer : List UInt8) : List UInt8 :=
  match s.limit with
  | none => offer
  | some limit => offer.take (limit - s.taken.size)

lemma fitting_of_limit {limit : ℕ} (hlimit : s.limit = some limit) (offer : List UInt8) :
    s.fitting offer = offer.take (limit - s.taken.size) := by
  rw [fitting, hlimit]

lemma fitting_of_full {limit : ℕ} (hlimit : s.limit = some limit) (hfull : limit ≤ s.taken.size)
    (offer : List UInt8) : s.fitting offer = [] := by
  rw [fitting_of_limit hlimit, Nat.sub_eq_zero_of_le hfull, List.take_zero]

lemma fitting_of_hasRoom (hroom : s.HasRoom offer.length) : s.fitting offer = offer := by
  cases hlimit : s.limit with
  | none => rw [fitting, hlimit]
  | some limit =>
    have := hroom limit hlimit
    rw [fitting_of_limit hlimit, List.take_of_length_le (by omega)]

lemma fitting_isPrefix (s : Sink) (offer : List UInt8) : s.fitting offer <+: offer := by
  cases hlimit : s.limit with
  | none =>
    have hall : s.fitting offer = offer := by rw [fitting, hlimit]
    exact ⟨[], by rw [hall, List.append_nil]⟩
  | some limit =>
    rw [fitting_of_limit hlimit]
    exact List.take_prefix _ _

lemma fitting_nil (s : Sink) : s.fitting [] = [] := List.prefix_nil.1 (s.fitting_isPrefix [])

lemma write_error {fault : Fault} (h : s.write offer = (.error fault, next)) :
    s.isFull = true ∧ s.fault = some fault ∧ next = s := by
  unfold write at h
  split at h
  · rename_i hfull hfault
    simp only [Prod.mk.injEq, Except.error.injEq] at h
    exact ⟨hfull, by rw [hfault, h.1], h.2.symm⟩
  · simp at h

lemma write_ok {count : ℕ} (h : s.write offer = (.ok count, next)) :
    count = (s.portion offer).length ∧ next = { s with taken := s.taken ++ s.portion offer } ∧
      (s.isFull = true → s.fault = none) := by
  unfold write at h
  split at h
  · simp at h
  · rename_i hnot
    simp only [Prod.mk.injEq, Except.ok.injEq] at h
    refine ⟨h.1.symm, h.2.symm, fun hfull => ?_⟩
    cases hfault : s.fault with
    | none => rfl
    | some fault => exact (hnot fault hfull hfault).elim

/-- One write takes no more than fits, and nothing only if nothing fits. -/
lemma portion_of_limit (hchunk : s.chunk ≠ some 0) {limit : ℕ} (hlimit : s.limit = some limit)
    (offer : List UInt8) :
    ∃ most, s.portion offer = offer.take most ∧ most ≤ limit - s.taken.size ∧
      (most = 0 → limit ≤ s.taken.size) := by
  cases hc : s.chunk with
  | none =>
    exact ⟨limit - s.taken.size, by simp [portion, room?, hc, hlimit], Nat.le_refl _, by omega⟩
  | some most =>
    have hne : most ≠ 0 := by
      rintro rfl
      exact hchunk hc
    exact ⟨min most (limit - s.taken.size), by simp [portion, room?, hc, hlimit],
      Nat.min_le_right _ _, by omega⟩

lemma taken_append (taken : Array UInt8) (first second : List UInt8) :
    taken ++ (first ++ second) = taken ++ first ++ second := by
  apply Array.ext'
  simp

lemma bytes_take (s : Sink) (part : List UInt8) :
    Sink.bytes { s with taken := s.taken ++ part } = s.bytes ++ part := by
  simp [bytes]

lemma size_take (s : Sink) (part : List UInt8) :
    (s.taken ++ part).size = s.taken.size + part.length := by
  rw [← Array.length_toList, Array.toList_appendList, List.length_append, Array.length_toList]

lemma fitting_of_take {limit : ℕ} {part : List UInt8} (hlimit : s.limit = some limit)
    (hnext : next.limit = s.limit) (htaken : next.taken = s.taken ++ part) (offer : List UInt8) :
    next.fitting offer = offer.take (limit - (s.taken.size + part.length)) := by
  rw [fitting_of_limit (hnext.trans hlimit), htaken, size_take]

lemma portion_append_fitting (hchunk : s.chunk ≠ some 0) {limit : ℕ}
    (hlimit : s.limit = some limit) (hnext : next.limit = s.limit)
    (htaken : next.taken = s.taken ++ s.portion offer) :
    s.portion offer ++ next.fitting (offer.drop (s.portion offer).length) = s.fitting offer := by
  obtain ⟨most, hportion, hmost, -⟩ := portion_of_limit hchunk hlimit offer
  have hle : (s.portion offer).length ≤ limit - s.taken.size := by
    rw [hportion, List.length_take]
    omega
  rw [fitting_of_take hlimit hnext htaken, fitting_of_limit hlimit]
  nth_rewrite 1 [portion_eq_take]
  rw [← Nat.sub_sub, ← List.take_add, Nat.add_sub_cancel' hle]

/-- Bytes for which there is not enough room leave those that fit. -/
theorem writeAll_of_not_hasRoom (hchunk : s.chunk ≠ some 0) (hne : offer ≠ [])
    (hroom : ¬s.HasRoom offer.length) :
    s.writeAll offer = .error (s.fault.getD .nothingTaken)
      { s with taken := s.taken ++ s.fitting offer } := by
  obtain ⟨limit, hlimit, hover⟩ : ∃ limit, s.limit = some limit ∧
      limit < s.taken.size + offer.length := by
    simpa [HasRoom] using hroom
  -- the room shrinks from write to write, the limit does not
  clear hroom
  fun_induction writeAll s offer with
  | case1 s => exact absurd rfl hne
  | case2 s byte rest fault next hwrite =>
    obtain ⟨hfull, hfault, rfl⟩ := write_error hwrite
    have hle : limit ≤ next.taken.size := by simpa [isFull, hlimit] using hfull
    have hcause : next.fault.getD .nothingTaken = fault := by rw [hfault, Option.getD_some]
    rw [hcause, fitting_of_full hlimit hle, Array.appendList_nil]
  | case3 s byte rest next hwrite =>
    obtain ⟨hcount, rfl, hclean⟩ := write_ok hwrite
    obtain ⟨most, hportion, -, hmost⟩ := portion_of_limit hchunk hlimit (byte :: rest)
    have hle : limit ≤ s.taken.size := by
      rw [hportion, List.length_take, List.length_cons] at hcount
      exact hmost (by omega)
    have hfault : s.fault = none := hclean (by simpa [isFull, hlimit] using hle)
    have hcause : s.fault.getD .nothingTaken = .nothingTaken := by rw [hfault, Option.getD_none]
    rw [hcause, fitting_of_full hlimit hle, List.length_eq_zero_iff.1 hcount.symm]
  | case4 s byte rest count next hwrite ih =>
    obtain ⟨hcount, rfl, -⟩ := write_ok hwrite
    obtain ⟨most, hportion, hmost, -⟩ := portion_of_limit hchunk hlimit (byte :: rest)
    have hdrop : rest.drop count = (byte :: rest).drop (s.portion (byte :: rest)).length := by
      rw [← hcount]
      rfl
    have hlen : (s.portion (byte :: rest)).length ≤ limit - s.taken.size := by
      rw [hportion, List.length_take]
      omega
    have hrest : limit < s.taken.size + (s.portion (byte :: rest)).length +
        (rest.drop count).length := by
      rw [hdrop, List.length_drop]
      omega
    have hne : rest.drop count ≠ [] := by
      intro hnil
      rw [hnil, List.length_nil] at hrest
      omega
    have hfit : s.portion (byte :: rest) ++
        fitting { s with taken := s.taken ++ s.portion (byte :: rest) } (rest.drop count) =
          s.fitting (byte :: rest) := by
      rw [hdrop]
      exact portion_append_fitting hchunk hlimit rfl rfl
    rw [ih hchunk hne hlimit (by rwa [size_take]), ← hfit, taken_append]

lemma fitting_append {first : List UInt8} (hlimit : next.limit = s.limit)
    (htaken : next.taken = s.taken ++ s.fitting first) (second : List UInt8) :
    s.fitting (first ++ second) = s.fitting first ++ next.fitting second := by
  cases h : s.limit with
  | none => simp only [fitting, hlimit, h]
  | some limit =>
    rw [fitting_of_take h hlimit htaken, fitting_of_limit h, fitting_of_limit h, List.take_append,
      List.length_take]
    -- a first offer that does not fit leaves no room for the second
    have hroom : limit - (s.taken.size + min (limit - s.taken.size) first.length) =
        limit - s.taken.size - first.length := by omega
    rw [hroom]

/-- Behind an offer, whether it fitted or not, there is room for another one that is not empty iff
there was room for both. -/
lemma hasRoom_behind_iff {first second : List UInt8} (hlimit : next.limit = s.limit)
    (htaken : next.taken = s.taken ++ s.fitting first) (hne : second ≠ []) :
    next.HasRoom second.length ↔ s.HasRoom (first ++ second).length := by
  have hpos := List.length_pos_iff.2 hne
  unfold HasRoom
  rw [hlimit, htaken, size_take, List.length_append]
  refine forall₂_congr fun limit h => ?_
  rw [fitting_of_limit h, List.length_take]
  omega

end Sink

namespace Writing

variable {s : Sink}

theorem run_bytes_of_room (hchunk : s.chunk ≠ some 0) (context : String) {offer : List UInt8}
    (h : offer = [] ∨ s.HasRoom offer.length) :
    (bytes context offer).run s = .ok () { s with taken := s.taken ++ offer } := by
  change bytes context offer s = _
  unfold bytes
  rcases h with rfl | hroom
  · rw [Sink.writeAll, Array.appendList_nil]
  · rw [Sink.writeAll_of_hasRoom hchunk offer hroom]

theorem run_bytes_of_not_room (hchunk : s.chunk ≠ some 0) (context : String) {offer : List UInt8}
    (h : ¬(offer = [] ∨ s.HasRoom offer.length)) :
    (bytes context offer).run s = .error (.disconnected context (s.fault.getD .nothingTaken))
      { s with taken := s.taken ++ s.fitting offer } := by
  rw [not_or] at h
  change bytes context offer s = _
  unfold bytes
  rw [Sink.writeAll_of_not_hasRoom hchunk h.1 h.2]

lemma run_flush_of_ne (context : String) (h : s.flushFault ≠ some s.flushes) :
    (flush context).run s = .ok () { s with flushes := s.flushes + 1 } := by
  change flush context s = _
  unfold flush Sink.flush
  rw [if_neg h]

lemma run_flush_of_eq (context : String) (h : s.flushFault = some s.flushes) :
    (flush context).run s =
      .error (.disconnected context .flushFailed) { s with flushes := s.flushes + 1 } := by
  change flush context s = _
  unfold flush Sink.flush
  rw [if_pos h]

end Writing

end MatrixAudit
