import Mathlib.Data.List.Induction
import MatrixAudit.Products

/-!
# Shared work

However a sequence is cut into segments, folding the segments and merging the partial results gives
what one worker gets from the whole sequence, as long as a partial result can be folded on from any
start. Column sums and responses are of that kind.
-/

namespace MatrixAudit

namespace Split

variable {α β ε : Type}

/-- If merging a partial fold into an accumulator is folding on from it, the split does not matter.
The accumulators for which that holds are those that `sound` admits, and good items keep them so. -/
theorem fold_eq_foldl {zero : β} {step : β → α → β} {merge : β → β → β} (good : α → Prop)
    (sound : β → Prop) (hzero : sound zero)
    (hstep : ∀ acc item, sound acc → good item → sound (step acc item))
    (hmerge : ∀ acc (rest : List α), sound acc →
      merge acc (rest.foldl step zero) = rest.foldl step acc)
    (work : Split α) (hwork : ∀ item ∈ work.items, good item) :
    work.fold zero step merge = work.items.foldl step zero := by
  induction work with
  | idle => rfl
  | segment items => rfl
  | both left right ihl ihr =>
    simp only [items, List.mem_append] at hwork
    have hl : ∀ item ∈ left.items, good item := fun item h => hwork item (Or.inl h)
    have hr : ∀ item ∈ right.items, good item := fun item h => hwork item (Or.inr h)
    have hsound : sound (left.items.foldl step zero) :=
      List.foldlRecOn left.items step hzero fun acc hacc item h => hstep acc item hacc (hl item h)
    rw [fold, ihl hl, ihr hr, hmerge _ _ hsound, items, List.foldl_append]

theorem mapM_eq (f : α → Except ε β) (work : Split α) : work.mapM f = work.items.mapM f := by
  induction work with
  | idle => rfl
  | segment items => rfl
  | both left right ihl ihr => rw [mapM, ihl, ihr, items, List.mapM_append]

end Split

lemma length_addWeighted (sums : List ℕ) (row : List Word) (weight : Word) :
    (addWeighted sums row weight).length = min sums.length row.length := by
  rw [addWeighted, List.length_zipWith]

lemma zipWith_addWeighted (left right : List ℕ) (row : List Word) (weight : Word) :
    List.zipWith (· + ·) left (addWeighted right row weight) =
      addWeighted (List.zipWith (· + ·) left right) row weight := by
  induction left generalizing right row with
  | nil => simp [addWeighted]
  | cons a left ih =>
    obtain _ | ⟨b, right⟩ := right
    · simp [addWeighted]
    · obtain _ | ⟨entry, row⟩ := row
      · simp [addWeighted]
      · simp only [addWeighted, List.zipWith_cons_cons] at ih ⊢
        rw [ih, Nat.add_assoc]

lemma zipWith_zeroSums (sums : List ℕ) :
    List.zipWith (· + ·) sums (zeroSums sums.length) = sums := by
  induction sums with
  | nil => rfl
  | cons a sums ih =>
    simp only [zeroSums, List.length_cons, List.replicate_succ, List.zipWith_cons_cons,
      Nat.add_zero] at ih ⊢
    rw [ih]

lemma zipWith_foldl_addWeighted (cols : ℕ) (sums : List ℕ) (items : List (List Word × Word))
    (hsums : sums.length = cols) :
    List.zipWith (· + ·) sums
        (items.foldl (fun sums item => addWeighted sums item.1 item.2) (zeroSums cols)) =
      items.foldl (fun sums item => addWeighted sums item.1 item.2) sums := by
  induction items using List.reverseRecOn with
  | nil =>
    subst hsums
    exact zipWith_zeroSums sums
  | append_singleton items item ih =>
    rw [List.foldl_append, List.foldl_append, List.foldl_cons, List.foldl_nil, List.foldl_cons,
      List.foldl_nil, zipWith_addWeighted, ih]

/-- Column accumulators do not depend on how the rows are shared out. -/
theorem sharedSums_eq (cols : ℕ) (work : Split (List Word × Word))
    (hrows : ∀ item ∈ work.items, item.1.length = cols) :
    sharedSums cols work =
      work.items.foldl (fun sums item => addWeighted sums item.1 item.2) (zeroSums cols) := by
  refine Split.fold_eq_foldl (fun item => item.1.length = cols) (fun sums => sums.length = cols)
    ?_ ?_ ?_ work hrows
  · exact List.length_replicate
  · intro sums item hsums hitem
    rw [length_addWeighted, hsums, hitem, Nat.min_self]
  · intro sums items hsums
    exact zipWith_foldl_addWeighted cols sums items hsums

end MatrixAudit
