import MatrixAudit.Proofs.AuditorTranscript
import MatrixAudit.Proofs.ColumnDefects

/-!
# Forged words in a response

A verifier may put any word in the place of one that it owes. Whatever the other words are, a weight
that is not zero in the field leaves one residue for which the audit passes; a weight that is zero
makes the word in its place irrelevant. So a single forged word in an otherwise honest response to a
true claim is found out, and writing a residue in another way is not held against it.
-/

namespace MatrixAudit
open Finset

/-- Replacing one word replaces its term in the sum. -/
lemma cast_innerTotal_set {xs ys : List Word} {i : ℕ} (hxs : i < xs.length) (hys : i < ys.length)
    (word : Word) :
    (innerTotal xs (ys.set i word) : ZMod Residue.modulus) =
      numberAt xs i * Residue.toField word +
        ∑ j ∈ (range xs.length).erase i, (numberAt xs j * numberAt ys j : ZMod Residue.modulus) := by
  have hrest : ∑ j ∈ (range xs.length).erase i,
      (numberAt xs j * numberAt (ys.set i word) j : ZMod Residue.modulus) =
      ∑ j ∈ (range xs.length).erase i, (numberAt xs j * numberAt ys j : ZMod Residue.modulus) := by
    refine sum_congr rfl fun j hj => ?_
    rw [numberAt_set hys, if_neg (ne_of_mem_erase hj)]
  rw [innerTotal, Nat.cast_sum, ← hrest, ← add_sum_erase _ _ (mem_range.2 hxs), numberAt_set hys,
    if_pos rfl, Nat.cast_mul, Residue.toField]
  simp only [Nat.cast_mul]

namespace Residue

lemma toField_eq_iff {word : Word} {x : ZMod modulus} :
    toField word = x ↔ word.toNat % modulus = x.val := by
  rw [← ZMod.val_injective modulus |>.eq_iff, toField, ZMod.val_natCast]

lemma cast_eq_zero_iff {a : ℕ} : (a : ZMod modulus) = 0 ↔ a % modulus = 0 := by
  rw [ZMod.natCast_eq_zero_iff, Nat.dvd_iff_mod_eq_zero]

end Residue

namespace Client

variable {c : Client} {challenge response : List Word}

/-- The verdict of the auditor when the verifier acknowledges the challenge and answers with the
given words. They travel as `reply` says, with its own bytes behind them. -/
def verdictOn (c : Client) (challenge response : List Word) (elapsed : ℕ) (reply : Source)
    (sink : Sink) : Except Failure Bool :=
  ((c.audit challenge).play elapsed
    { reply with
      bytes := acknowledgement :: LittleEndian.encodeWords wordWidth response ++ reply.bytes }
    sink).result.map fun a => a.balance.passed

section Verdict

variable (hweights : c.weights.length = c.m) (hclaimed : c.claimed.length = c.n)
  (hchallenge : challenge.length = c.n) (hresponse : response.length = c.m)

include hweights hclaimed hchallenge hresponse

lemma expectedAudit_of_response (elapsed : Duration) (rest : List UInt8) :
    (c.expectedAudit challenge elapsed
        (acknowledgement :: LittleEndian.encodeWords wordWidth response ++ rest)).result =
      .ok ⟨challenge, response, elapsed, c.exactBalance challenge response⟩ := by
  have hlength : wordWidth * c.m ≤
      (LittleEndian.encodeWords wordWidth response ++ rest).length := by
    rw [List.length_append, LittleEndian.length_encodeWords, hresponse]
    exact Nat.le_add_right _ _
  have hwords : LittleEndian.decodeWords wordWidth c.m
      (LittleEndian.encodeWords wordWidth response ++ rest) = response := by
    rw [← hresponse]
    exact LittleEndian.decodeWords_encodeWords _ _
  rw [List.cons_append, expectedAudit, if_neg (not_not.2 hchallenge)]
  dsimp only
  rw [if_neg (not_not.2 rfl), if_neg (Nat.not_lt_of_le hlength), if_neg (not_not.2 hweights),
    if_neg (not_not.2 (hclaimed.trans hchallenge.symm)), hwords]

variable (elapsed : ℕ) {reply : Source} {sink : Sink} (steady : reply.Steady)
  (clean : reply.fault = none) (tireless : sink.Tireless)

include steady clean tireless

lemma play_audit_of_response :
    ((c.audit challenge).play elapsed
      { reply with
        bytes := acknowledgement :: LittleEndian.encodeWords wordWidth response ++ reply.bytes }
      sink).result = .ok ⟨challenge, response, ⟨elapsed⟩, c.exactBalance challenge response⟩ := by
  let source : Source := { reply with
    bytes := acknowledgement :: LittleEndian.encodeWords wordWidth response ++ reply.bytes }
  have hsteady : source.Steady := steady
  have hplay := ((c.audit challenge).play_eq_transcript elapsed hsteady clean tireless).1
  rwa [transcript_audit, expectedAudit_of_response hweights hclaimed hchallenge hresponse] at hplay

/-- There is always a verdict, and it is whether the exact sums are congruent. -/
lemma verdictOn_eq : c.verdictOn challenge response elapsed reply sink =
    .ok (decide ((innerTotal c.weights response : ZMod Residue.modulus) =
      innerTotal c.claimed challenge)) := by
  have hplay := play_audit_of_response hweights hclaimed hchallenge hresponse elapsed steady clean
    tireless
  have hpassed : (c.exactBalance challenge response).passed =
      decide ((innerTotal c.weights response : ZMod Residue.modulus) =
        innerTotal c.claimed challenge) := by
    rw [Bool.eq_iff_iff, passed_exactBalance_iff, decide_eq_true_eq, ZMod.natCast_eq_natCast_iff]
  rw [verdictOn, hplay, Except.map, hpassed]

variable {i : ℕ} (hi : i < c.m)

include hi

/-- With the other words given, the equation for the word at `i` is linear. -/
lemma verdictOn_set_eq (word : Word) :
    c.verdictOn challenge (response.set i word) elapsed reply sink =
      .ok (decide ((numberAt c.weights i : ZMod Residue.modulus) * Residue.toField word =
        innerTotal c.claimed challenge -
          ∑ j ∈ (range c.m).erase i, (numberAt c.weights j * numberAt response j :
            ZMod Residue.modulus))) := by
  have hset : (response.set i word).length = c.m := by rw [List.length_set, hresponse]
  rw [verdictOn_eq hweights hclaimed hchallenge hset elapsed steady clean tireless,
    cast_innerTotal_set (by rwa [hweights]) (by rwa [hresponse]), hweights]
  simp only [eq_sub_iff_add_eq]

lemma existsUnique_accepted (hweight : numberAt c.weights i % Residue.modulus ≠ 0) :
    ∃! w, w < Residue.modulus ∧ ∀ word : Word,
      c.verdictOn challenge (response.set i word) elapsed reply sink =
        .ok (decide (word.toNat % Residue.modulus = w)) := by
  have hne : (numberAt c.weights i : ZMod Residue.modulus) ≠ 0 := fun h =>
    hweight (Residue.cast_eq_zero_iff.1 h)
  let rest : ZMod Residue.modulus := innerTotal c.claimed challenge -
    ∑ j ∈ (range c.m).erase i, (numberAt c.weights j * numberAt response j : ZMod Residue.modulus)
  have hverdict : ∀ word : Word, c.verdictOn challenge (response.set i word) elapsed reply sink =
      .ok (decide (word.toNat % Residue.modulus = (rest / numberAt c.weights i).val)) := by
    intro word
    rw [verdictOn_set_eq hweights hclaimed hchallenge hresponse elapsed steady clean tireless hi]
    refine congrArg Except.ok (decide_eq_decide.2 ?_)
    rw [← Residue.toField_eq_iff, eq_div_iff hne, mul_comm]
  refine ⟨(rest / numberAt c.weights i).val, ⟨ZMod.val_lt _, hverdict⟩, ?_⟩
  rintro w ⟨hw, hother⟩
  -- the canonical word of `w` passes by the one description, so it does by the other
  have hword : (Residue.ofNat w).toNat % Residue.modulus = w := by
    rw [Residue.toNat_ofNat, Nat.mod_mod, Nat.mod_eq_of_lt hw]
  have hboth := (hother (Residue.ofNat w)).symm.trans (hverdict (Residue.ofNat w))
  rw [hword] at hboth
  have hdecide := decide_eq_decide.1 (Except.ok.inj hboth)
  exact hdecide.1 rfl

lemma exists_verdict_of_weight_eq_zero (hweight : numberAt c.weights i % Residue.modulus = 0) :
    ∃ passed, ∀ word : Word,
      c.verdictOn challenge (response.set i word) elapsed reply sink = .ok passed := by
  refine ⟨decide (0 = innerTotal c.claimed challenge - ∑ j ∈ (range c.m).erase i,
    (numberAt c.weights j * numberAt response j : ZMod Residue.modulus)), fun word => ?_⟩
  rw [verdictOn_set_eq hweights hclaimed hchallenge hresponse elapsed steady clean tireless hi,
    Residue.cast_eq_zero_iff.2 hweight, zero_mul]

/-- Where the other words are those of a response that passes, the residue that passes is its
own. -/
lemma verdictOn_set_of_passed (hweight : numberAt c.weights i % Residue.modulus ≠ 0)
    (hpassed : c.verdictOn challenge response elapsed reply sink = .ok true) (word : Word) :
    c.verdictOn challenge (response.set i word) elapsed reply sink =
      .ok (decide (word.toNat ≡ numberAt response i [MOD Residue.modulus])) := by
  obtain ⟨w, ⟨-, hw⟩, -⟩ := existsUnique_accepted hweights hclaimed hchallenge hresponse elapsed
    steady clean tireless hi hweight
  have hi' : i < response.length := by rwa [hresponse]
  have hown := hw response[i]
  rw [List.set_getElem_self, hpassed, ← numberAt_eq_getElem hi'] at hown
  rw [hw, ← of_decide_eq_true (Except.ok.inj hown).symm]
  rfl

end Verdict

end Client

namespace Statement

variable {s : Statement}

/-- The honest response to a true claim balances. -/
lemma balanced_of_congruent (fits : s.Fits)
    (holds : ∀ k < s.client.n, numberAt s.client.claimed k ≡
      s.dataset.columnTotal s.client.weights k [MOD Residue.modulus]) (challenge : List Word) :
    (innerTotal s.client.weights (s.dataset.rowWords challenge) : ZMod Residue.modulus) =
      innerTotal s.client.claimed challenge := by
  rw [cast_innerTotal_rowWords fits, innerTotal, ← fits.length_claimed, Nat.cast_sum]
  refine sum_congr rfl fun k hk => ?_
  rw [Nat.cast_mul, (ZMod.natCast_eq_natCast_iff _ _ _).2 (holds k (mem_range.1 hk))]

end Statement

namespace Client

/-- An auditor whose vectors have the lengths of its dimensions always reaches a verdict on a
complete response. Of the words at a place whose weight is not zero in the field, those of exactly
one residue make it pass; in the response to a true claim it is the residue of the honest word. A
weight that is zero leaves the verdict to the other words. -/
theorem existsUnique_residue_passes [Sharing] {c : Client} (hweights : c.weights.length = c.m)
    (hclaimed : c.claimed.length = c.n) {challenge response : List Word}
    (hchallenge : challenge.length = c.n) (hresponse : response.length = c.m) {i : ℕ} (hi : i < c.m)
    (elapsed : ℕ) {reply : Source} {sink : Sink} (steady : reply.Steady)
    (clean : reply.fault = none) (tireless : sink.Tireless) :
    (numberAt c.weights i % Residue.modulus ≠ 0 →
      (∃! w, w < Residue.modulus ∧ ∀ word : Word,
        c.verdictOn challenge (response.set i word) elapsed reply sink =
          .ok (decide (word.toNat % Residue.modulus = w))) ∧
      ∀ (dataset : Dataset) (parallel : Bool), Statement.ofParts dataset c = .ok ⟨dataset, c⟩ →
        (∀ k < c.n, numberAt c.claimed k ≡ dataset.columnTotal c.weights k
          [MOD Residue.modulus]) →
        dataset.responseWith parallel challenge = .ok response → ∀ word : Word,
          c.verdictOn challenge (response.set i word) elapsed reply sink =
            .ok (decide (word.toNat ≡ numberAt response i [MOD Residue.modulus]))) ∧
    (numberAt c.weights i % Residue.modulus = 0 → ∃ passed, ∀ word : Word,
      c.verdictOn challenge (response.set i word) elapsed reply sink = .ok passed) := by
  refine ⟨fun hweight => ⟨existsUnique_accepted hweights hclaimed hchallenge hresponse elapsed
    steady clean tireless hi hweight, ?_⟩, exists_verdict_of_weight_eq_zero hweights hclaimed
      hchallenge hresponse elapsed steady clean tireless hi⟩
  intro dataset parallel accepted holds honest word
  have fits : Statement.Fits ⟨dataset, c⟩ := (Statement.ofParts_eq_ok accepted).2
  rw [dataset.responseWith_eq parallel (hchallenge.trans fits.cols_eq.symm)] at honest
  have hpassed : c.verdictOn challenge response elapsed reply sink = .ok true := by
    rw [verdictOn_eq hweights hclaimed hchallenge hresponse elapsed steady clean tireless,
      ← Except.ok.inj honest]
    exact congrArg Except.ok (decide_eq_true (Statement.balanced_of_congruent fits holds challenge))
  exact verdictOn_set_of_passed hweights hclaimed hchallenge hresponse elapsed steady clean tireless
    hi hweight hpassed word

/-- A reply in pieces, with a byte behind the response. -/
def pacedReply : Source := { bytes := [9], chunk := some 3, interrupts := true }

attribute [local instance] Sharing.halving

theorem existsUnique_residue_passes_sample :
    pacedReply.Steady ∧ pacedReply.fault = none ∧ Sink.Tireless { chunk := some 2 } ∧
    numberAt sampleClient.weights 0 % Residue.modulus ≠ 0 ∧
    sampleClient.verdictOn [5, 7, 1] [216172782113783813, 43] 0 pacedReply { chunk := some 2 } =
      .ok true ∧
    sampleClient.verdictOn [5, 7, 1] [72057594037927955, 43] 0 pacedReply { chunk := some 2 } =
      .ok false ∧
    ∃ passed, ∀ word, verdictOn { sampleClient with weights := [144115188075855859, 1] } [5, 7, 1]
      [word, 43] 0 pacedReply { chunk := some 2 } = .ok passed := by
  have steady : pacedReply.Steady := fun h => by cases h
  have tireless : Sink.Tireless { chunk := some 2 } := ⟨by decide, rfl, rfl⟩
  have hweight : numberAt sampleClient.weights 0 % Residue.modulus ≠ 0 := by decide
  have accepted : Statement.ofParts sampleDataset sampleClient =
    .ok ⟨sampleDataset, sampleClient⟩ := rfl
  have holds : ∀ k < sampleClient.n, numberAt sampleClient.claimed k ≡
    sampleDataset.columnTotal sampleClient.weights k [MOD Residue.modulus] := by decide
  have honest : sampleDataset.responseWith true [5, 7, 1] = .ok [72057594037927954, 43] := rfl
  have hfirst : 0 < sampleClient.m := by decide
  have hchallenge : ([5, 7, 1] : List Word).length = sampleClient.n := rfl
  have hresponse : ([72057594037927954, 43] : List Word).length = sampleClient.m := rfl
  obtain ⟨hforged, -⟩ := existsUnique_residue_passes (by rfl) (by rfl) hchallenge hresponse hfirst 0
    steady rfl tireless
  have hverdict := (hforged hweight).2 sampleDataset true accepted holds honest
  obtain ⟨-, hignored⟩ := existsUnique_residue_passes
    (c := { sampleClient with weights := [144115188075855859, 1] }) rfl rfl hchallenge hresponse
    hfirst 0 steady rfl tireless
  exact ⟨steady, rfl, tireless, hweight, hverdict 216172782113783813, hverdict 72057594037927955,
    hignored (by decide)⟩

end Client

end MatrixAudit
