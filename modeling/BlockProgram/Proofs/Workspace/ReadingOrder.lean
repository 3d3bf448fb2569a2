import BlockProgram.Workspace.Basic

/-! # Reading order

Whatever the relation, both ways of sorting give the elements they were given
(`Order.insertion_perm`, `Order.blockwise_perm`).  So the stacks in reading order are those of the
workspace.
-/
namespace BlockProgram

open List

namespace Order

variable {α : Type} (less : α → α → Bool)

theorem place_perm (x : α) (xs : List α) : (place less x xs).Perm (x :: xs) := by
  induction xs with
  | nil => exact .refl _
  | cons y xs ih =>
    rw [place]
    split
    · exact (ih.cons y).trans (.swap x y xs)
    · exact .refl _

theorem insertion_perm (xs : List α) : (insertion less xs).Perm xs := by
  have hfold : ∀ sorted, (xs.foldl (fun sorted x => place less x sorted) sorted).Perm (xs ++ sorted) := by
    induction xs with
    | nil => exact fun _ => .refl _
    | cons x xs ih =>
      intro sorted
      exact (ih _).trans (((place_perm less x sorted).append_left xs).trans perm_middle)
  have hsorted := hfold []
  rw [append_nil] at hsorted
  exact (reverse_perm _).trans hsorted

/-- Two lists split, with the pieces in the middle exchanged. -/
theorem exchange_perm (xs ys : List α) (i j : Nat) :
    ((xs.take i ++ ys.take j) ++ (xs.drop i ++ ys.drop j)).Perm (xs ++ ys) := by
  have hmiddle : (ys.take j ++ (xs.drop i ++ ys.drop j)).Perm (xs.drop i ++ ys) := by
    rw [← append_assoc]
    refine (perm_append_comm.append_right _).trans ?_
    rw [append_assoc, take_append_drop]
  rw [append_assoc]
  refine (hmiddle.append_left _).trans ?_
  rw [← append_assoc, take_append_drop]

theorem mergeWithin_perm (fuel : Nat) (xs ys : List α) : (mergeWithin less fuel xs ys).Perm (xs ++ ys) := by
  induction fuel generalizing xs ys with
  | zero => exact .refl _
  | succ fuel ih =>
    have hsplit : ∀ (zs : List α) i, (mergeWithin less fuel (zs.take i) (zs.drop i)).Perm zs := fun zs i => by
      simpa only [take_append_drop] using ih (zs.take i) (zs.drop i)
    unfold mergeWithin
    split
    · exact .refl _
    · rw [append_nil]
    · refine perm_middle.trans ?_
      rw [take_append_drop]
      exact .refl _
    · refine perm_middle.trans ?_
      rw [take_append_drop]
      exact (perm_append_singleton ..).symm
    · refine ((hsplit _ _).append (hsplit _ _)).trans ?_
      rw [take_append_drop]
      exact exchange_perm _ _ _ _

theorem mergePairs_perm : ∀ blocks : List (List α), (mergePairs less blocks).flatten.Perm blocks.flatten
  | [] => .refl _
  | [_] => .refl _
  | xs :: ys :: rest => by
    rw [mergePairs, flatten_cons, flatten_cons, flatten_cons, ← append_assoc]
    exact (mergeWithin_perm less _ xs ys).append (mergePairs_perm rest)

theorem mergeAll_perm (fuel : Nat) (blocks : List (List α)) : (mergeAll less fuel blocks).Perm blocks.flatten := by
  induction fuel generalizing blocks with
  | zero => exact .refl _
  | succ fuel ih =>
    unfold mergeAll
    split
    · exact .refl _
    · rw [flatten_singleton]
    · exact (ih _).trans (mergePairs_perm less _)

theorem flatten_blocksOf {size : Nat} (hsize : 0 < size) {fuel : Nat} {xs : List α} (hfuel : xs.length ≤ fuel) :
    (blocksOf size fuel xs).flatten = xs := by
  induction fuel generalizing xs with
  | zero => exact (eq_nil_of_length_eq_zero (Nat.le_zero.mp hfuel)).symm
  | succ fuel ih =>
    unfold blocksOf
    split
    · case isTrue hempty => exact (isEmpty_iff.mp hempty).symm
    · case isFalse hempty =>
      have hshorter : (xs.drop size).length ≤ fuel := by
        rw [length_drop]
        omega
      rw [flatten_cons, ih hshorter, take_append_drop]

theorem blockwise_perm (xs : List α) : (blockwise less xs).Perm xs := by
  have hinsert : ∀ blocks : List (List α), (blocks.map (insertion less)).flatten.Perm blocks.flatten := by
    intro blocks
    induction blocks with
    | nil => exact .refl _
    | cons block blocks ih => exact (insertion_perm less block).append ih
  refine (mergeAll_perm less _ _).trans ((hinsert _).trans ?_)
  rw [flatten_blocksOf (by decide) (Nat.le_refl _)]

end Order

/-- **The stacks in reading order are those of the workspace.** -/
theorem Workspace.inReadingOrder_perm (w : Workspace) : w.inReadingOrder.Perm w.tops := by
  have hplaced : ∀ f : Stack → Number.Floating, (w.tops.map fun s => (f s, s)).map (·.2) = w.tops := fun f => by
    rw [map_map]
    exact map_id _
  unfold inReadingOrder
  dsimp only
  split
  · exact ((Order.blockwise_perm _ _).map _).trans (.of_eq (hplaced _))
  · exact ((Order.insertion_perm _ _).map _).trans (.of_eq (hplaced _))

end BlockProgram
