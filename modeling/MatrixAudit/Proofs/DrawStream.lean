import Mathlib.Algebra.Ring.Periodic
import MatrixAudit.Proofs.UniformDraws

/-!
# Samples along one stream of draws

A key has one stream of draws, two words of its keystream each. A sampler always stands at a place
of this stream, inside a block or between two, and the values it gives are those of the accepted
draws that it passes. So calls can be regrouped, and a call fails only if no draw of the stream is
accepted.
-/

namespace MatrixAudit

namespace ChaCha

def Block.words (b : Block) : List UInt32 :=
  [b.x0, b.x1, b.x2, b.x3, b.x4, b.x5, b.x6, b.x7, b.x8, b.x9, b.xa, b.xb, b.xc, b.xd, b.xe, b.xf]

/-- The keystream, word by word. Its blocks are counted in 64 bits. -/
def keystream (key : Key) (place : ℕ) : UInt32 :=
  (block key (UInt64.ofNat (place / 16))).words.getD (place % 16) 0

end ChaCha

namespace Sampler

/-- The draw at a place of the stream: two successive words of the keystream, the low one first. -/
def drawAt (key : ChaCha.Key) (place : ℕ) : Word :=
  joinWords (ChaCha.keystream key (2 * place)) (ChaCha.keystream key (2 * place + 1))

/-- The value at a place of the stream, if the draw there is accepted. -/
def valueAt? (key : ChaCha.Key) (place : ℕ) : Option Word := accept? (drawAt key place)

section Stream

variable (key : ChaCha.Key)

/-- The draws of the block with the given number. -/
def blockDraws (number : ℕ) : List Word :=
  let block := ChaCha.block key (UInt64.ofNat number)
  block.firstDraw :: block.laterDraws

/-- The sampler in front of a place: what is left of the block around the place is ready. -/
def before (place : ℕ) : Sampler where
  key := key
  counter := UInt64.ofNat ((place + 7) / 8)
  ready := (blockDraws key ((place + 7) / 8 - 1)).drop ((place + 7) % 8 + 1)

lemma length_blockDraws (number : ℕ) : (blockDraws key number).length = 8 := rfl

lemma getElem_blockDraws (number : ℕ) {r : ℕ} (h : r < (blockDraws key number).length) :
    (blockDraws key number)[r] = drawAt key (8 * number + r) := by
  have hr : r < 8 := h
  have hlow : 2 * (8 * number + r) / 16 = number ∧ 2 * (8 * number + r) % 16 = 2 * r := by omega
  have hhigh : (2 * (8 * number + r) + 1) / 16 = number ∧
      (2 * (8 * number + r) + 1) % 16 = 2 * r + 1 := by omega
  rw [drawAt, ChaCha.keystream, ChaCha.keystream, hlow.1, hlow.2, hhigh.1, hhigh.2]
  interval_cases r <;> rfl

lemma ofKey_eq_before : ofKey key = before key 0 := rfl

/-- Between two blocks nothing is ready. -/
lemma before_block (number : ℕ) : before key (8 * number) = ⟨key, UInt64.ofNat number, []⟩ := by
  have hcounter : (8 * number + 7) / 8 = number := by omega
  have hready : (8 * number + 7) % 8 + 1 = 8 := by omega
  rw [before, hcounter, hready, List.drop_eq_nil_of_le (length_blockDraws key _).le]

lemma before_inside (number : ℕ) {r : ℕ} (hpos : 0 < r) (hle : r ≤ 8) :
    before key (8 * number + r) =
      ⟨key, UInt64.ofNat (number + 1), (blockDraws key number).drop r⟩ := by
  have hcounter : (8 * number + r + 7) / 8 = number + 1 := by omega
  have hready : (8 * number + r + 7) % 8 + 1 = r := by omega
  rw [before, hcounter, hready, Nat.add_sub_cancel]

/-- One draw takes a sampler over one place of the stream. -/
theorem draw_before (place : ℕ) :
    (before key place).draw = (drawAt key place, before key (place + 1)) := by
  obtain ⟨number, r, hr, rfl⟩ : ∃ number r, r < 8 ∧ place = 8 * number + r :=
    ⟨place / 8, place % 8, Nat.mod_lt _ (by decide), (Nat.div_add_mod _ _).symm⟩
  have hlen : r < (blockDraws key number).length := hr
  rw [← getElem_blockDraws key number hlen, Nat.add_assoc,
    before_inside key number (Nat.succ_pos r) hr]
  obtain rfl | hpos := Nat.eq_zero_or_pos r
  · rw [Nat.add_zero, before_block, draw, UInt64.ofNat_add]
    rfl
  · rw [before_inside key number hpos hr.le, List.drop_eq_getElem_cons hlen]
    rfl

lemma iterate_skip_before (start count : ℕ) :
    skip^[count] (before key start) = before key (start + count) := by
  induction count with
  | zero => rfl
  | succ count ih =>
    rw [Function.iterate_succ_apply', ih, skip, draw_before, Nat.add_assoc]

lemma drawAt_periodic : Function.Periodic (drawAt key) period := by
  intro place
  have hperiod : period = 8 * 2 ^ 64 := rfl
  have hkeystream : Function.Periodic (ChaCha.keystream key) (2 * period) := by
    intro word
    have hnumber : (word + 2 * period) / 16 = word / 16 + 2 ^ 64 := by omega
    have hword : (word + 2 * period) % 16 = word % 16 := by omega
    have hcounter : UInt64.ofNat (word / 16 + 2 ^ 64) = UInt64.ofNat (word / 16) := by
      rw [← UInt64.toNat_inj, UInt64.toNat_ofNat', UInt64.toNat_ofNat', Nat.add_mod_right]
    rw [ChaCha.keystream, ChaCha.keystream, hnumber, hword, hcounter]
  have hhigh : 2 * place + 2 * period + 1 = 2 * place + 1 + 2 * period := by omega
  rw [drawAt, drawAt, Nat.mul_add, hhigh, hkeystream, hkeystream]

/-- If any draw is accepted, then one of the next ones is, before the stream repeats. -/
lemma exists_accepted_of_accepted {place : ℕ} (h : valueAt? key place ≠ none) (start : ℕ) :
    ∃ k < period, valueAt? key (start + k) ≠ none := by
  have hpos : 0 < period := by decide
  refine ⟨(place + start * period - start) % period, Nat.mod_lt _ hpos, ?_⟩
  have hle : start ≤ start * period := Nat.le_mul_of_pos_right start hpos
  have hmod : (start + (place + start * period - start) % period) % period = place % period := by
    rw [Nat.add_mod_mod, Nat.add_sub_cancel' (Nat.le_add_left_of_le hle),
      Nat.add_mul_mod_self_right]
  rw [valueAt?, ← (drawAt_periodic key).map_mod_nat, hmod, (drawAt_periodic key).map_mod_nat]
  exact h

variable {key}

lemma sample_before_eq_some_iff {start : ℕ} {value : Word} {next : Sampler} :
    (before key start).sample = some (value, next) ↔
      ∃ k < period, (∀ j < k, valueAt? key (start + j) = none) ∧
        valueAt? key (start + k) = some value ∧ next = before key (start + (k + 1)) := by
  rw [sample, search, searchBy_eq_some_iff]
  simp only [iterate_skip_before, draw_before, valueAt?]

/-- A search ends unless it would never end. -/
theorem sample_before_eq_none_iff (start : ℕ) :
    (before key start).sample = none ↔ ∀ place, valueAt? key place = none := by
  constructor
  · intro hnone place
    by_contra haccepted
    have hexists := exists_accepted_of_accepted key haccepted start
    obtain ⟨hlt, hfound⟩ := Nat.find_spec hexists
    obtain ⟨value, hvalue⟩ := Option.ne_none_iff_exists'.1 hfound
    have hsample : (before key start).sample =
        some (value, before key (start + (Nat.find hexists + 1))) := by
      refine sample_before_eq_some_iff.2 ⟨Nat.find hexists, hlt, fun j hj => ?_, hvalue, rfl⟩
      by_contra hearlier
      exact Nat.find_min hexists hj ⟨hj.trans hlt, hearlier⟩
    rw [hnone] at hsample
    cases hsample
  · intro hnone
    rw [Option.eq_none_iff_forall_ne_some]
    rintro ⟨value, next⟩ hsample
    obtain ⟨k, -, -, hvalue, -⟩ := sample_before_eq_some_iff.1 hsample
    rw [hnone] at hvalue
    cases hvalue

/-- The values of the accepted ones among `count` draws from a place on, the last of which is
accepted. -/
structure Yields (key : ChaCha.Key) (start count : ℕ) (values : List Word) : Prop where
  values_eq : values = (List.range' start count).filterMap (valueAt? key)
  last : count = 0 ∨ valueAt? key (start + count - 1) ≠ none

namespace Yields

variable {start count more : ℕ} {values others : List Word}

lemma nil (start : ℕ) : Yields key start 0 [] := ⟨rfl, .inl rfl⟩

lemma append (h : Yields key start count values) (h' : Yields key (start + count) more others) :
    Yields key start (count + more) (values ++ others) := by
  refine ⟨?_, ?_⟩
  · rw [h.values_eq, h'.values_eq, ← List.filterMap_append, List.range'_append_1]
  · obtain rfl | hlast := h'.last
    · exact h.last
    · rw [← Nat.add_assoc]
      exact .inr hlast

lemma isReduced (h : Yields key start count values) :
    ∀ value ∈ values, Residue.isReduced value = true := by
  rw [h.values_eq]
  intro value hvalue
  obtain ⟨place, -, haccept⟩ := List.mem_filterMap.1 hvalue
  exact isReduced_of_accept? haccept

end Yields

lemma yields_of_sample {start : ℕ} {value : Word} {next : Sampler}
    (h : (before key start).sample = some (value, next)) :
    ∃ count, next = before key (start + count) ∧ Yields key start count [value] := by
  obtain ⟨k, -, hskipped, hvalue, hnext⟩ := sample_before_eq_some_iff.1 h
  have hnone : (List.range' start k).filterMap (valueAt? key) = [] := by
    rw [List.filterMap_eq_nil_iff]
    intro place hplace
    obtain ⟨j, hj, rfl⟩ := List.mem_range'.1 hplace
    rw [Nat.one_mul]
    exact hskipped j hj
  refine ⟨k + 1, hnext, ?_, .inr ?_⟩
  · rw [← List.range'_append_1, List.filterMap_append, hnone, List.range'_one,
      List.filterMap_cons_some hvalue, List.filterMap_nil, List.nil_append]
  · rw [← Nat.add_assoc, Nat.add_sub_cancel, hvalue]
    exact Option.some_ne_none value

end Stream

section Calls

lemma collectBy_eq (one : Sampler → Option (Word × Sampler)) (count : ℕ) (done : List Word)
    (s : Sampler) : collectBy one count done s =
      (collectBy one count [] s).map fun run => (done.reverse ++ run.1, run.2) := by
  induction count generalizing done s with
  | zero => simp [collectBy]
  | succ count ih =>
    rw [collectBy, collectBy]
    obtain _ | ⟨value, next⟩ := one s
    · rfl
    · dsimp only
      rw [ih, ih [value], Option.map_map]
      simp [Function.comp_def]

lemma sampleMany_zero (s : Sampler) : s.sampleMany 0 = some ([], s) := by
  rw [sampleMany, sampleOnto, collectBy, List.reverse_nil]

lemma sampleMany_succ (count : ℕ) (s : Sampler) : s.sampleMany (count + 1) =
    s.sample.bind fun drawn => (drawn.2.sampleMany count).map fun run =>
      (drawn.1 :: run.1, run.2) := by
  simp only [sampleMany, sampleOnto]
  generalize sample = one
  rw [collectBy]
  obtain _ | ⟨value, next⟩ := one s
  · rfl
  · exact collectBy_eq one count [value] next

/-- A vector can be drawn in two parts. -/
theorem sampleMany_add (first second : ℕ) (s : Sampler) : s.sampleMany (first + second) =
    (s.sampleMany first).bind fun run => (run.2.sampleMany second).map fun more =>
      (run.1 ++ more.1, more.2) := by
  induction first generalizing s with
  | zero => simp [sampleMany_zero]
  | succ first ih =>
    rw [Nat.succ_add, sampleMany_succ, sampleMany_succ, Option.bind_assoc]
    refine congrArg (s.sample.bind ·) (funext fun drawn => ?_)
    rw [ih, Option.map_bind, Option.bind_map]
    simp only [Function.comp_def, Option.map_map, List.cons_append]

lemma length_of_sampleMany {count : ℕ} {s next : Sampler} {values : List Word}
    (h : s.sampleMany count = some (values, next)) : values.length = count := by
  induction count generalizing s values with
  | zero =>
    rw [sampleMany_zero] at h
    cases h
    rfl
  | succ count ih =>
    rw [sampleMany_succ, Option.bind_eq_some_iff] at h
    obtain ⟨drawn, -, h⟩ := h
    obtain ⟨run, hrun, heq⟩ := Option.map_eq_some_iff.1 h
    cases heq
    rw [List.length_cons, ih hrun]

theorem yields_of_sampleMany {key : ChaCha.Key} {start count : ℕ} {values : List Word}
    {next : Sampler} (h : (before key start).sampleMany count = some (values, next)) :
    ∃ used, next = before key (start + used) ∧ Yields key start used values := by
  induction count generalizing start values with
  | zero =>
    rw [sampleMany_zero] at h
    cases h
    exact ⟨0, rfl, .nil start⟩
  | succ count ih =>
    rw [sampleMany_succ, Option.bind_eq_some_iff] at h
    obtain ⟨⟨value, middle⟩, hsample, h⟩ := h
    obtain ⟨⟨rest, last⟩, hrest, heq⟩ := Option.map_eq_some_iff.1 h
    cases heq
    obtain ⟨used, rfl, hvalue⟩ := yields_of_sample hsample
    obtain ⟨more, rfl, hvalues⟩ := ih hrest
    exact ⟨used + more, by rw [Nat.add_assoc], hvalue.append hvalues⟩

theorem sampleMany_before_eq_none_iff {key : ChaCha.Key} {start count : ℕ} :
    (before key start).sampleMany count = none ↔
      count ≠ 0 ∧ ∀ place, valueAt? key place = none := by
  induction count generalizing start with
  | zero => simp [sampleMany_zero]
  | succ count ih =>
    rw [sampleMany_succ, and_iff_right (Nat.succ_ne_zero count),
      ← sample_before_eq_none_iff start]
    constructor
    · intro hnone
      by_contra hsome
      obtain ⟨⟨value, next⟩, hsample⟩ := Option.ne_none_iff_exists'.1 hsome
      obtain ⟨used, rfl, -⟩ := yields_of_sample hsample
      rw [hsample, Option.bind_some, Option.map_eq_none_iff, ih] at hnone
      exact hsome ((sample_before_eq_none_iff _).2 hnone.2)
    · intro hnone
      rw [hnone, Option.bind_none]

/-- A call of a sampler: for one value, or for a vector. -/
inductive Call where
  | one
  | vector (count : ℕ)

def Call.count : Call → ℕ
  | one => 1
  | vector count => count

/-- The answer to a call, and the sampler behind it. -/
def Call.answer (s : Sampler) : Call → Option (List Word × Sampler)
  | one => s.sample.map fun drawn => ([drawn.1], drawn.2)
  | vector count => s.sampleMany count

/-- The answers to calls of one sampler, one after the other. -/
def answerAll : List Call → Sampler → Option (List (List Word) × Sampler)
  | [], s => some ([], s)
  | call :: calls, s =>
    (call.answer s).bind fun first =>
      (answerAll calls first.2).map fun rest => (first.1 :: rest.1, rest.2)

lemma Call.answer_eq (call : Call) (s : Sampler) : call.answer s = s.sampleMany call.count := by
  cases call with
  | one =>
    rw [Call.answer, Call.count, sampleMany_succ]
    simp only [sampleMany_zero, Option.map_some]
    exact Option.map_eq_bind
  | vector count => rw [Call.answer, Call.count]

theorem answerAll_flatten (calls : List Call) (s : Sampler) :
    (answerAll calls s).map (fun run => (run.1.flatten, run.2)) =
      s.sampleMany (calls.map Call.count).sum := by
  induction calls generalizing s with
  | nil => rw [answerAll, List.map_nil, List.sum_nil, sampleMany_zero, Option.map_some,
      List.flatten_nil]
  | cons call calls ih =>
    rw [answerAll, List.map_cons, List.sum_cons, sampleMany_add, Call.answer_eq, Option.map_bind]
    refine congrArg (Option.bind _) (funext fun first => ?_)
    rw [← ih, Function.comp_apply, Option.map_map, Option.map_map]
    rfl

lemma lengths_of_answerAll {calls : List Call} {s next : Sampler} {answers : List (List Word)}
    (h : answerAll calls s = some (answers, next)) :
    answers.map List.length = calls.map Call.count := by
  induction calls generalizing s answers with
  | nil =>
    rw [answerAll] at h
    cases h
    rfl
  | cons call calls ih =>
    rw [answerAll, Call.answer_eq, Option.bind_eq_some_iff] at h
    obtain ⟨first, hfirst, h⟩ := h
    obtain ⟨rest, hrest, heq⟩ := Option.map_eq_some_iff.1 h
    cases heq
    rw [List.map_cons, List.map_cons, length_of_sampleMany hfirst, ih hrest]

/-- No buffer holds as many words as this: the size of one in bytes is counted in 63 bits. -/
def longestVector : ℕ := 2 ^ 60

/-- The calls of a seeded sampler can be regrouped: one after the other they give the values of one
long vector. These are the values of the accepted draws of the seed's stream, each once and in
order, up to the last one that is needed. Calls for vectors that are no longer than a buffer can be
fail only if values are wanted from a stream that has none. -/
theorem calls_regroup (seed : Word) (calls : List Call) :
    (answerAll calls (ofSeed seed)).map (fun run => (run.1.flatten, run.2)) =
      (ofSeed seed).sampleMany (calls.map Call.count).sum ∧
    (∀ place, (skip^[place] (ofSeed seed)).draw.1 = drawAt (seedKey seed) place) ∧
    (∀ answers next, answerAll calls (ofSeed seed) = some (answers, next) →
      answers.map List.length = calls.map Call.count ∧
      (∀ value ∈ answers.flatten, value.toNat < Residue.modulus) ∧
      ∃ used, next = skip^[used] (ofSeed seed) ∧
        answers.flatten =
          (List.range used).filterMap (fun place => accept? (drawAt (seedKey seed) place)) ∧
        (used = 0 ∨ accept? (drawAt (seedKey seed) (used - 1)) ≠ none)) ∧
    ((∀ call ∈ calls, call.count < longestVector) →
      (answerAll calls (ofSeed seed) = none ↔ (calls.map Call.count).sum ≠ 0 ∧
        ∀ place, accept? (drawAt (seedKey seed) place) = none)) := by
  have hstart : ofSeed seed = before (seedKey seed) 0 := ofKey_eq_before _
  have hflatten := answerAll_flatten calls (ofSeed seed)
  refine ⟨hflatten, fun place => ?_, fun answers next hrun => ?_, fun _ => ?_⟩
  · rw [hstart, iterate_skip_before, draw_before, Nat.zero_add]
  · rw [hrun, Option.map_some, hstart] at hflatten
    obtain ⟨used, hnext, hyields⟩ := yields_of_sampleMany hflatten.symm
    refine ⟨lengths_of_answerAll hrun, fun value hvalue => ?_, used, ?_, ?_, ?_⟩
    · exact Residue.isReduced_iff.1 (hyields.isReduced value hvalue)
    · rw [hstart, iterate_skip_before]
      exact hnext
    · rw [List.range_eq_range']
      exact hyields.values_eq
    · have hlast := hyields.last
      rwa [Nat.zero_add] at hlast
  · rw [← Option.map_eq_none_iff, hflatten, hstart]
    exact sampleMany_before_eq_none_iff

/-- Twelve values, with a block's end inside the second vector. -/
theorem calls_regroup_sample :
    let calls : List Call := [.one, .vector 5, .vector 0, .vector 5, .one]
    ∃ answers next, answerAll calls (ofSeed 0) = some (answers, next) ∧
      answers.map List.length = [1, 5, 0, 5, 1] ∧
      answers.head? = some [3511555279023087] ∧
      (ofSeed 0).sampleMany 12 = some (answers.flatten, next) ∧
      (∀ value ∈ answers.flatten, value.toNat < Residue.modulus) ∧
      ¬∀ place, accept? (drawAt (seedKey 0) place) = none := by
  intro calls
  have hfirst : (answerAll calls (ofSeed 0)).map (fun run => run.1.head?) =
      some (some [3511555279023087]) := by decide +kernel
  obtain ⟨⟨answers, next⟩, hrun, hhead⟩ := Option.map_eq_some_iff.1 hfirst
  obtain ⟨hregroup, -, hvalues, hfails⟩ := calls_regroup 0 calls
  obtain ⟨hlengths, hlt, -⟩ := hvalues answers next hrun
  rw [hrun] at hregroup
  refine ⟨answers, next, hrun, hlengths, hhead, hregroup.symm, hlt, fun hnone => ?_⟩
  have hbounded : ∀ call ∈ calls, call.count < longestVector := by decide
  rw [(hfails hbounded).2 ⟨by decide, hnone⟩] at hrun
  cases hrun

end Calls

end Sampler

end MatrixAudit
