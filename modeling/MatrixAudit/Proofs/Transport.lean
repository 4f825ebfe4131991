import Mathlib.Data.Nat.Init
import MatrixAudit.Dialogue
import MatrixAudit.Proofs.WireWords

/-!
# Reads and writes on scripted channels

A steady source never hands out nothing before its end. From such a source every read takes exactly
its bytes or all that is left, whatever the pieces and the interruptions. A sink with room for some
bytes takes them all.
-/

namespace MatrixAudit

namespace Source

/-- No read brings nothing while there are bytes. -/
def Steady (s : Source) : Prop := s.chunk ≠ some 0

variable {s next : Source} {room need : ℕ}

lemma allowance_pos (steady : s.Steady) (h : 0 < room) : 0 < s.allowance room := by
  unfold allowance
  split
  · exact h
  · rename_i most hmost
    have hne : most ≠ 0 := by
      rintro rfl
      exact steady hmost
    omega

lemma allowance_le (s : Source) (room : ℕ) : s.allowance room ≤ room := by
  unfold allowance
  split
  · exact Nat.le_refl _
  · exact Nat.min_le_right _ _

lemma read_failed {fault : Fault} (h : s.read room = (.failed fault, next)) :
    s.bytes = [] ∧ s.fault = some fault ∧ next = { s with reads := s.reads + 1 } := by
  unfold read at h
  split at h
  · simp at h
  · split at h
    · rename_i hbytes hfault
      simp only [Prod.mk.injEq, Arrival.failed.injEq] at h
      exact ⟨hbytes, by rw [hfault, h.1], h.2.symm⟩
    · simp at h

/-- Nothing comes only at the end, and only if no fault waits there. -/
lemma read_nothing (steady : s.Steady) (hroom : 0 < room) (h : s.read room = (.bytes [], next)) :
    s.bytes = [] ∧ s.fault = none ∧ next = { s with reads := s.reads + 1 } := by
  have hpos := allowance_pos steady hroom
  obtain ⟨hpiece, hnext⟩ := read_bytes h
  have hbytes : s.bytes = [] := by
    rcases List.take_eq_nil_iff.1 hpiece.symm with hzero | hnil
    · omega
    · exact hnil
  refine ⟨hbytes, ?_, by rw [hnext, hbytes, List.drop_nil, ← hbytes]⟩
  unfold read at h
  split at h
  · simp at h
  · split at h
    · simp at h
    · rename_i hfault
      rw [← Option.not_isSome_iff_eq_none, Option.isSome_iff_exists]
      rintro ⟨fault, heq⟩
      exact hfault fault hbytes heq

theorem fill_of_le (steady : s.Steady) (got : List UInt8) (h : need ≤ s.bytes.length) :
    ∃ reads, s.fill need got = .ok (got.reverse ++ s.bytes.take need)
      { s with bytes := s.bytes.drop need, reads } := by
  fun_induction fill s need got with
  | case1 s got => exact ⟨s.reads, by simp⟩
  | case2 s need got hneed next arrival ih =>
    obtain ⟨-, rfl⟩ := read_interrupted arrival
    exact ih steady h
  | case3 s need got hneed fault next arrival =>
    rw [(read_failed arrival).1, List.length_nil] at h
    omega
  | case4 s need got hneed next arrival =>
    rw [(read_nothing steady (Nat.pos_of_ne_zero hneed) arrival).1, List.length_nil] at h
    omega
  | case5 s need got hneed byte piece next arrival ih =>
    obtain ⟨hpiece, rfl⟩ := read_bytes arrival
    have hle := s.allowance_le need
    have hlen : piece.length + 1 = s.allowance need := by
      rw [← List.length_cons, hpiece, List.length_take]
      omega
    obtain ⟨reads, hfill⟩ := ih steady (by simp only [List.length_drop]; omega)
    have htake : s.bytes.take (s.allowance need) ++
        (s.bytes.drop (s.allowance need)).take (need - s.allowance need) = s.bytes.take need := by
      rw [← List.take_add, Nat.add_sub_cancel' hle]
    refine ⟨reads, hfill.trans ?_⟩
    rw [hlen, hpiece, List.reverse_append, List.reverse_reverse, List.append_assoc, htake,
      List.drop_drop, Nat.add_sub_cancel' hle]

theorem fill_of_lt (steady : s.Steady) (got : List UInt8) (h : s.bytes.length < need) :
    ∃ reads, s.fill need got = .error (s.fault.getD .inputEnded) { s with bytes := [], reads } := by
  fun_induction fill s need got with
  | case1 s got => exact absurd h (Nat.not_lt_zero _)
  | case2 s need got hneed next arrival ih =>
    obtain ⟨-, rfl⟩ := read_interrupted arrival
    exact ih steady h
  | case3 s need got hneed fault next arrival =>
    obtain ⟨hbytes, hfault, rfl⟩ := read_failed arrival
    exact ⟨s.reads + 1, by rw [hfault, Option.getD_some, hbytes]⟩
  | case4 s need got hneed next arrival =>
    obtain ⟨hbytes, hfault, rfl⟩ := read_nothing steady (Nat.pos_of_ne_zero hneed) arrival
    exact ⟨s.reads + 1, by rw [hfault, Option.getD_none, hbytes]⟩
  | case5 s need got hneed byte piece next arrival ih =>
    obtain ⟨hpiece, rfl⟩ := read_bytes arrival
    have hle := s.allowance_le need
    have hlen : piece.length + 1 = min (s.allowance need) s.bytes.length := by
      rw [← List.length_cons, hpiece, List.length_take]
    exact ih steady (by simp only [List.length_drop]; omega)

end Source

section Bind

variable {ε σ α β : Type} {x : EStateM ε σ α} {f : α → EStateM ε σ β} {s t : σ}

lemma bind_of_ok {a : α} (h : x s = .ok a t) : (x >>= f) s = f a t := by
  simp only [bind, EStateM.bind, h]

lemma bind_of_error {e : ε} (h : x s = .error e t) : (x >>= f) s = .error e t := by
  simp only [bind, EStateM.bind, h]

end Bind

namespace Reading

variable {s : Source} {count : ℕ} (origin : Origin) (context : String) (expected : ℕ)

lemma exactly_of_le (steady : s.Steady) (h : count ≤ s.bytes.length) :
    ∃ reads, exactly origin context expected count s =
      .ok (s.bytes.take count) { s with bytes := s.bytes.drop count, reads } := by
  obtain ⟨reads, hfill⟩ := Source.fill_of_le steady [] h
  exact ⟨reads, by rw [exactly, hfill]; rfl⟩

lemma exactly_of_lt (steady : s.Steady) (h : s.bytes.length < count) :
    ∃ reads, exactly origin context expected count s =
      .error (.ofRead origin context expected (s.fault.getD .inputEnded))
        { s with bytes := [], reads } := by
  obtain ⟨reads, hfill⟩ := Source.fill_of_lt steady [] h
  exact ⟨reads, by rw [exactly, hfill]⟩

/-- A vector that is not empty is read block by block, the first of them followed by the rest. -/
lemma wordBlocks_eq_bind {remaining : ℕ} (hne : remaining ≠ 0) (done : List Word) :
    ∃ first rest, 0 < first ∧ remaining = first + rest ∧
      wordBlocks origin context expected remaining done =
        exactly origin context expected (wordWidth * first) >>= fun block =>
          wordBlocks origin context expected rest
            ((LittleEndian.decodeWords wordWidth first block).reverse ++ done) := by
  have hle : min remaining blockWords ≤ remaining := Nat.min_le_left _ _
  refine ⟨min remaining blockWords, remaining - min remaining blockWords, ?_, ?_, ?_⟩
  · rw [blockWords]
    omega
  · omega
  · rw [wordBlocks, if_neg hne]

lemma wordBlocks_of_le (steady : s.Steady) {remaining : ℕ} (done : List Word)
    (h : wordWidth * remaining ≤ s.bytes.length) :
    ∃ reads, wordBlocks origin context expected remaining done s =
      .ok (done.reverse ++ LittleEndian.decodeWords wordWidth remaining s.bytes)
        { s with bytes := s.bytes.drop (wordWidth * remaining), reads } := by
  induction remaining using Nat.strong_induction_on generalizing s done with
  | _ remaining ih =>
    by_cases hzero : remaining = 0
    · subst hzero
      rw [wordBlocks]
      exact ⟨s.reads, by simp [LittleEndian.decodeWords_eq, pure, EStateM.pure]⟩
    · obtain ⟨first, rest, hpos, rfl, hbind⟩ :=
        wordBlocks_eq_bind origin context expected hzero done
      rw [Nat.mul_add] at h
      obtain ⟨used, hfirst⟩ := exactly_of_le origin context expected steady
        (Nat.le_of_add_right_le h)
      have hleft : wordWidth * rest ≤ (s.bytes.drop (wordWidth * first)).length := by
        rw [List.length_drop]
        omega
      obtain ⟨reads, hrest⟩ := ih rest (by omega) (s := { s with bytes := _, reads := used })
        steady _ hleft
      refine ⟨reads, ?_⟩
      rw [hbind, bind_of_ok hfirst, hrest]
      simp only [List.reverse_append, List.reverse_reverse, List.append_assoc, List.drop_drop,
        LittleEndian.decodeWords_take, LittleEndian.decodeWords_add, Nat.mul_add]

lemma wordBlocks_of_lt (steady : s.Steady) {remaining : ℕ} (done : List Word)
    (h : s.bytes.length < wordWidth * remaining) :
    ∃ reads, wordBlocks origin context expected remaining done s =
      .error (.ofRead origin context expected (s.fault.getD .inputEnded))
        { s with bytes := [], reads } := by
  induction remaining using Nat.strong_induction_on generalizing s done with
  | _ remaining ih =>
    have hne : remaining ≠ 0 := by
      rintro rfl
      exact absurd h (Nat.not_lt_zero _)
    obtain ⟨first, rest, hpos, rfl, hbind⟩ := wordBlocks_eq_bind origin context expected hne done
    rw [hbind]
    by_cases hblock : wordWidth * first ≤ s.bytes.length
    · obtain ⟨used, hfirst⟩ := exactly_of_le origin context expected steady hblock
      have hleft : (s.bytes.drop (wordWidth * first)).length < wordWidth * rest := by
        rw [Nat.mul_add] at h
        rw [List.length_drop]
        omega
      obtain ⟨reads, hrest⟩ := ih rest (by omega) (s := { s with bytes := _, reads := used })
        steady _ hleft
      exact ⟨reads, by rw [bind_of_ok hfirst, hrest]⟩
    · obtain ⟨reads, hfirst⟩ := exactly_of_lt origin context expected steady
        (Nat.lt_of_not_le hblock)
      exact ⟨reads, bind_of_error hfirst⟩

end Reading

namespace Request

lemma decode_byte (byte : UInt8) : Request.byte.decode [byte] = byte := by
  change UInt8.ofNat (byte.toNat + 256 * 0) = byte
  rw [Nat.mul_zero, Nat.add_zero, UInt8.ofNat_toNat]

lemma decode_words (values : List Word) :
    (words values.length).decode (LittleEndian.encodeWords wordWidth values) = values := by
  have hwords := LittleEndian.decodeWords_encodeWords values []
  rwa [List.append_nil] at hwords

variable {s : Source} {request : Request}

/-- An answered request takes exactly its bytes. -/
theorem read_of_le (steady : s.Steady) (context : String) (h : request.size ≤ s.bytes.length) :
    ∃ reads, (request.read context).run s = .ok (request.decode (s.bytes.take request.size))
      { s with bytes := s.bytes.drop request.size, reads } := by
  cases request with
  | byte =>
    obtain ⟨reads, hread⟩ := Reading.exactly_of_le .peer context 1 steady h
    exact ⟨reads, bind_of_ok hread⟩
  | word =>
    obtain ⟨reads, hread⟩ := Reading.exactly_of_le .peer context wordWidth steady h
    exact ⟨reads, bind_of_ok hread⟩
  | words length =>
    obtain ⟨reads, hread⟩ := Reading.wordBlocks_of_le .peer context
      (min (wordWidth * length) Reading.greatestCount) steady [] h
    refine ⟨reads, hread.trans ?_⟩
    rw [decode, size, LittleEndian.decodeWords_take]
    rfl

/-- A request that is not answered in full uses up the source. -/
theorem read_of_lt (steady : s.Steady) (context : String) (h : s.bytes.length < request.size) :
    ∃ reads, (request.read context).run s =
      .error (.disconnected context (s.fault.getD .inputEnded)) { s with bytes := [], reads } := by
  cases request with
  | byte =>
    obtain ⟨reads, hread⟩ := Reading.exactly_of_lt .peer context 1 steady h
    exact ⟨reads, bind_of_error hread⟩
  | word =>
    obtain ⟨reads, hread⟩ := Reading.exactly_of_lt .peer context wordWidth steady h
    exact ⟨reads, bind_of_error hread⟩
  | words length =>
    exact Reading.wordBlocks_of_lt .peer context _ steady [] h

end Request

namespace Sink

variable {s : Sink}

/-- The sink has room for `count` more bytes. -/
def HasRoom (s : Sink) (count : ℕ) : Prop := ∀ limit ∈ s.limit, s.taken.size + count ≤ limit

lemma portion_eq_take (s : Sink) (offer : List UInt8) :
    s.portion offer = offer.take (s.portion offer).length := by
  unfold portion
  split
  · rw [List.take_length]
  · rw [List.length_take, ← List.take_take, List.take_length]

lemma room?_pos (hchunk : s.chunk ≠ some 0) {count most : ℕ} (hroom : s.HasRoom count)
    (hcount : 0 < count) (hmost : s.room? = some most) : 0 < most := by
  have hlimit : ∀ limit, s.limit = some limit → 0 < limit - s.taken.size := by
    intro limit hlimit
    have := hroom limit hlimit
    omega
  have hne : ∀ chunk, s.chunk = some chunk → 0 < chunk := by
    rintro chunk heq
    by_contra hzero
    rw [Nat.eq_zero_of_not_pos hzero] at heq
    exact hchunk heq
  unfold room? at hmost
  cases hc : s.chunk with
  | none =>
    cases hl : s.limit with
    | none => simp [hc, hl] at hmost
    | some limit =>
      simp only [hc, hl, Option.some.injEq] at hmost
      exact hmost ▸ hlimit limit hl
  | some chunk =>
    cases hl : s.limit with
    | none =>
      simp only [hc, hl, Option.some.injEq] at hmost
      exact hmost ▸ hne chunk hc
    | some limit =>
      simp only [hc, hl, Option.some.injEq] at hmost
      exact hmost ▸ Nat.lt_min.2 ⟨hne chunk hc, hlimit limit hl⟩

lemma length_portion_pos (hchunk : s.chunk ≠ some 0) {offer : List UInt8}
    (hroom : s.HasRoom offer.length) (hoffer : 0 < offer.length) :
    0 < (s.portion offer).length := by
  unfold portion
  split
  · exact hoffer
  · rename_i most hmost
    rw [List.length_take]
    exact Nat.lt_min.2 ⟨room?_pos hchunk hroom hoffer hmost, hoffer⟩

lemma write_of_hasRoom {offer : List UInt8} (hroom : s.HasRoom offer.length)
    (hoffer : 0 < offer.length) :
    s.write offer =
      (.ok (s.portion offer).length, { s with taken := s.taken ++ s.portion offer }) := by
  have hfull : s.isFull = false := by
    unfold isFull
    split
    · rfl
    · rename_i limit hlimit
      have := hroom limit hlimit
      exact decide_eq_false (by omega)
  rw [write, hfull]

theorem writeAll_of_hasRoom (hchunk : s.chunk ≠ some 0) (offer : List UInt8)
    (hroom : s.HasRoom offer.length) :
    s.writeAll offer = .ok () { s with taken := s.taken ++ offer } := by
  fun_induction writeAll s offer with
  | case1 s => simp
  | case2 s byte rest fault next hwrite =>
    rw [write_of_hasRoom hroom (by simp)] at hwrite
    cases hwrite
  | case3 s byte rest next hwrite =>
    have hpos := length_portion_pos hchunk hroom (by simp)
    rw [write_of_hasRoom hroom (by simp), Prod.mk.injEq, Except.ok.injEq] at hwrite
    omega
  | case4 s byte rest count next hwrite ih =>
    rw [write_of_hasRoom hroom (by simp), Prod.mk.injEq, Except.ok.injEq] at hwrite
    obtain ⟨hcount, rfl⟩ := hwrite
    have htake : s.portion (byte :: rest) = byte :: rest.take count := by
      rw [portion_eq_take, hcount, List.take_succ_cons]
    have hlen : (rest.take count).length = count := by
      rw [htake, List.length_cons] at hcount
      omega
    have htaken : s.taken ++ (byte :: rest.take count) ++ rest.drop count =
        s.taken ++ (byte :: rest) := by
      apply Array.ext'
      simp [List.take_append_drop]
    rw [htake] at ih ⊢
    rw [ih hchunk fun limit hlimit => ?_, htaken]
    have hle := hroom limit hlimit
    rw [← Array.length_toList, Array.toList_appendList, List.length_append, List.length_cons, hlen,
      List.length_drop, Array.length_toList]
    rw [List.length_take] at hlen
    rw [List.length_cons] at hle
    omega

end Sink

end MatrixAudit
