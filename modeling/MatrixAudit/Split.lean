/-!
# Sharing work out

A split cuts a sequence into contiguous segments, some of them possibly empty, and says in which
order the partial results are put together. Results are computed for each segment on its own, so
different workers can take different segments.
-/

namespace MatrixAudit

/-- A way of sharing a sequence out among workers. -/
inductive Split (α : Type) where
  | idle
  | segment (items : List α)
  | both (left right : Split α)

namespace Split

variable {α β : Type}

def items : Split α → List α
  | idle => []
  | segment items => items
  | both left right => left.items ++ right.items

/-- Folds each segment from `zero` and merges the partial results. -/
def fold (zero : β) (step : β → α → β) (merge : β → β → β) : Split α → β
  | idle => zero
  | segment items => items.foldl step zero
  | both left right => merge (left.fold zero step merge) (right.fold zero step merge)

/-- Maps each segment and joins the results in order. -/
def mapM {ε : Type} (f : α → Except ε β) : Split α → Except ε (List β)
  | idle => .ok []
  | segment items => items.mapM f
  | both left right => do return (← left.mapM f) ++ (← right.mapM f)

/-- Cuts a sequence in two, again and again, `depth` times over. -/
def halves : Nat → List α → Split α
  | 0, items => segment items
  | depth + 1, items =>
    both (halves depth (items.take (items.length / 2)))
      (halves depth (items.drop (items.length / 2)))

theorem items_halves (depth : Nat) (items : List α) : (halves depth items).items = items := by
  induction depth generalizing items with
  | zero => rfl
  | succ depth ih => simp [halves, Split.items, ih]

end Split

/-- How work is shared out. It may be cut up in any way that keeps its order and loses nothing. -/
class Sharing where
  share : {α : Type} → List α → Split α
  items_share : ∀ {α : Type} (items : List α), (share items).items = items

/-- Cuts work in two, three times over. -/
@[reducible] def Sharing.halving : Sharing := ⟨Split.halves 3, Split.items_halves 3⟩

end MatrixAudit
