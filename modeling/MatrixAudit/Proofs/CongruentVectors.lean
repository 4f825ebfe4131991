import Mathlib.Data.List.Forall2
import MatrixAudit.Exchange
import MatrixAudit.Proofs.ColumnDefects

/-!
# Congruent vectors

Words that are congruent modulo the prime can stand for each other in every product. So the
response, the column sums and the balance of an exchange are the same words for congruent vectors,
reduced or not, and two clients with congruent vectors play one and the same dialogue.
-/

namespace MatrixAudit
open Finset

/-- The words stand for the same residue. -/
def Residue.Congruent (a b : Word) : Prop := a.toNat ≡ b.toNat [MOD modulus]

/-- Place by place the words of two vectors of one length stand for the same residues. -/
def CongruentVectors (xs ys : List Word) : Prop := List.Forall₂ Residue.Congruent xs ys

instance : DecidableRel Residue.Congruent := fun a b =>
  inferInstanceAs (Decidable (a.toNat ≡ b.toNat [MOD Residue.modulus]))

instance : DecidableRel CongruentVectors := fun xs ys =>
  inferInstanceAs (Decidable (List.Forall₂ Residue.Congruent xs ys))

namespace CongruentVectors

variable {xs xs' ys ys' : List Word}

lemma refl (xs : List Word) : CongruentVectors xs xs :=
  List.forall₂_same.2 fun _ _ => Nat.ModEq.refl _

lemma length_eq (h : CongruentVectors xs xs') : xs.length = xs'.length := List.Forall₂.length_eq h

lemma cast_numberAt (h : CongruentVectors xs xs') (i : ℕ) :
    (numberAt xs i : ZMod Residue.modulus) = numberAt xs' i := by
  induction h generalizing i with
  | nil => rfl
  | cons hword _ ih =>
    cases i with
    | zero => exact (ZMod.natCast_eq_natCast_iff _ _ _).2 hword
    | succ i => exact ih i

/-- Putting a congruent word in one place gives a congruent vector. -/
lemma set {k : ℕ} {word : Word} (h : numberAt xs k ≡ word.toNat [MOD Residue.modulus]) :
    CongruentVectors xs (xs.set k word) := by
  induction xs generalizing k with
  | nil => exact refl []
  | cons x xs ih =>
    cases k with
    | zero => exact List.Forall₂.cons h (refl xs)
    | succ k => exact List.Forall₂.cons (Nat.ModEq.refl _) (ih h)

lemma ofNat_innerTotal (hx : CongruentVectors xs xs') (hy : CongruentVectors ys ys') :
    Residue.ofNat (innerTotal xs ys) = Residue.ofNat (innerTotal xs' ys') := by
  rw [Residue.ofNat_eq_ofNat_iff]
  simp only [innerTotal, Nat.cast_sum, Nat.cast_mul, hx.cast_numberAt, hy.cast_numberAt,
    hx.length_eq]

/-- Vectors of unequal lengths are refused alike. -/
theorem innerProduct_eq (hx : CongruentVectors xs xs') (hy : CongruentVectors ys ys') :
    innerProduct xs ys = innerProduct xs' ys' := by
  by_cases h : xs.length = ys.length
  · have h' : xs'.length = ys'.length := by rw [← hx.length_eq, ← hy.length_eq, h]
    rw [MatrixAudit.innerProduct_eq h, MatrixAudit.innerProduct_eq h', hx.ofNat_innerTotal hy]
  · have h' : xs'.length ≠ ys'.length := by rwa [← hx.length_eq, ← hy.length_eq]
    rw [innerProduct_of_length_ne h, innerProduct_of_length_ne h', hx.length_eq, hy.length_eq]

variable (d : Dataset)

lemma rowWords_eq (h : CongruentVectors xs xs') : d.rowWords xs = d.rowWords xs' := by
  unfold Dataset.rowWords
  apply List.map_congr_left
  intro i _
  rw [Residue.ofNat_eq_ofNat_iff]
  simp only [Dataset.rowTotal, Nat.cast_sum, Nat.cast_mul, h.cast_numberAt]

lemma columnWords_eq (h : CongruentVectors xs xs') : d.columnWords xs = d.columnWords xs' := by
  unfold Dataset.columnWords
  apply List.map_congr_left
  intro k _
  rw [Residue.ofNat_eq_ofNat_iff]
  simp only [Dataset.columnTotal, Nat.cast_sum, Nat.cast_mul, h.cast_numberAt]

theorem responseWith_eq [Sharing] (h : CongruentVectors xs xs') (parallel parallel' : Bool) :
    d.responseWith parallel xs = d.responseWith parallel' xs' := by
  by_cases hlen : xs.length = d.cols
  · have hlen' : xs'.length = d.cols := h.length_eq.symm.trans hlen
    rw [d.responseWith_eq parallel hlen, d.responseWith_eq parallel' hlen', h.rowWords_eq d]
  · have hlen' : xs'.length ≠ d.cols := h.length_eq ▸ hlen
    rw [d.responseWith_of_length_ne parallel hlen, d.responseWith_of_length_ne parallel' hlen',
      h.length_eq]

end CongruentVectors

namespace Client

/-- The clients have the same dimensions and congruent vectors. -/
structure Congruent (c c' : Client) : Prop where
  n_eq : c.n = c'.n
  m_eq : c.m = c'.m
  weights : CongruentVectors c.weights c'.weights
  claimed : CongruentVectors c.claimed c'.claimed

/-- The client with another word in the place of its claimed sum of column `k`. -/
def withClaim (c : Client) (k : ℕ) (word : Word) : Client :=
  { c with claimed := c.claimed.set k word }

lemma length_claimed_withClaim (c : Client) (k : ℕ) (word : Word) :
    (c.withClaim k word).claimed.length = c.claimed.length := List.length_set

lemma numberAt_claimed_withClaim {c : Client} {k : ℕ} (hk : k < c.claimed.length) (word : Word) :
    numberAt (c.withClaim k word).claimed k = word.toNat :=
  (numberAt_set hk word k).trans (if_pos rfl)

lemma congruent_withClaim {c : Client} {k : ℕ} {word : Word}
    (h : numberAt c.claimed k ≡ word.toNat [MOD Residue.modulus]) :
    c.Congruent (c.withClaim k word) := ⟨rfl, rfl, .refl _, .set h⟩

variable {c c' : Client} {challenge challenge' response response' : List Word}

theorem Congruent.balance_eq (h : c.Congruent c')
    (hchallenge : CongruentVectors challenge challenge')
    (hresponse : CongruentVectors response response') :
    c.balance challenge response = c'.balance challenge' response' := by
  rw [balance, balance, h.weights.innerProduct_eq hresponse, h.claimed.innerProduct_eq hchallenge]

lemma Congruent.exactBalance_eq (h : c.Congruent c')
    (hchallenge : CongruentVectors challenge challenge')
    (hresponse : CongruentVectors response response') :
    c.exactBalance challenge response = c'.exactBalance challenge' response' := by
  rw [exactBalance, exactBalance, h.weights.ofNat_innerTotal hresponse,
    h.claimed.ofNat_innerTotal hchallenge]

/-- Clients with congruent vectors say the same to a verifier, whatever it answers. -/
theorem Congruent.audit_eq (h : c.Congruent c') (challenge : List Word) :
    c.audit challenge = c'.audit challenge := by
  have hbalance : c.balance = c'.balance := by
    funext challenge response
    exact h.balance_eq (.refl challenge) (.refl response)
  obtain ⟨n, m, weights, claimed⟩ := c
  obtain ⟨n', m', weights', claimed'⟩ := c'
  obtain rfl : n = n' := h.n_eq
  obtain rfl : m = m' := h.m_eq
  simp only [audit, hbalance]

end Client

namespace Statement

variable {s t : Statement}

/-- Verifiers with one dataset and congruent clients say the same to a peer, whatever it sends and
whoever computes the response. -/
theorem answerAudit_eq_of_congruent [Sharing] (hdataset : s.dataset = t.dataset)
    (h : s.client.Congruent t.client) (parallel parallel' : Bool) :
    s.answerAudit parallel = t.answerAudit parallel' := by
  have hbalance : s.client.balance = t.client.balance := by
    funext challenge response
    exact h.balance_eq (.refl challenge) (.refl response)
  have hresponse : s.dataset.responseWith parallel = t.dataset.responseWith parallel' := by
    funext challenge
    rw [hdataset]
    exact (CongruentVectors.refl challenge).responseWith_eq t.dataset parallel parallel'
  obtain ⟨dataset, n, m, weights, claimed⟩ := s
  obtain ⟨dataset', n', m', weights', claimed'⟩ := t
  obtain rfl : n = n' := h.n_eq
  simp only [answerAudit, hbalance, hresponse]

end Statement

end MatrixAudit
