/-! Sorting by a relation that need not order everything. Where it does, a sort that keeps equal
elements in place has one result, which insertion gives. Where some elements compare with none, the
result depends on which are compared: blocks of some elements are sorted by insertion, and merged in
place, two by two. A merge splits both blocks so that the elements around the split exchange places,
and merges the halves again. -/
namespace BlockProgram.Order

variable {α : Type} (less : α → α → Bool)

/-- Puts an element among those already sorted, last first: it passes those that it is less than. -/
def place (x : α) : List α → List α
  | [] => [x]
  | y :: rest => if less x y then y :: place x rest else x :: y :: rest

/-- Sorts by insertion. Equal elements keep their order. -/
def insertion (xs : List α) : List α := (xs.foldl (fun sorted x => place less x sorted) []).reverse

/-- The first number from `lo` to before `hi` at which `stop` holds, found by halving. -/
def search (stop : Nat → Bool) : Nat → Nat → Nat → Nat
  | 0, lo, _ => lo
  | fuel + 1, lo, hi =>
    if lo < hi then
      let mid := (lo + hi) / 2
      if stop mid then search stop fuel lo mid else search stop fuel (mid + 1) hi
    else lo

def lessAt (xs : Array α) (i j : Nat) : Bool :=
  match xs[i]?, xs[j]? with
  | some x, some y => less x y
  | _, _ => false

/-- Merges two sorted lists, for a fuel that is at least the number of their elements. A single
element goes where halving puts it. -/
def mergeWithin : Nat → List α → List α → List α
  | 0, xs, ys => xs ++ ys
  | fuel + 1, xs, ys =>
    let all := (xs ++ ys).toArray
    let m := xs.length
    let b := all.size
    match xs, ys with
    | [], ys => ys
    | xs, [] => xs
    | [x], ys =>
      let i := search (fun h => !lessAt less all h 0) b m b - m
      ys.take i ++ x :: ys.drop i
    | xs, [y] =>
      let i := search (fun h => lessAt less all m h) b 0 m
      xs.take i ++ y :: xs.drop i
    | xs, ys =>
      let mid := b / 2
      let n := mid + m
      let (lo, hi) := if mid < m then (n - b, mid) else (0, m)
      let start := search (fun c => lessAt less all (n - 1 - c) c) b lo hi
      let final := n - start
      let front := xs.take start ++ ys.take (final - m)
      let back := xs.drop start ++ ys.drop (final - m)
      let around := front ++ back
      let left := around.take mid
      let right := around.drop mid
      mergeWithin fuel (left.take start) (left.drop start) ++
        mergeWithin fuel (right.take (final - mid)) (right.drop (final - mid))

def mergePairs : List (List α) → List (List α)
  | xs :: ys :: rest => mergeWithin less (xs.length + ys.length) xs ys :: mergePairs rest
  | rest => rest

/-- Merges lists until one is left. Each pass halves their number, which is fuel enough. -/
def mergeAll : Nat → List (List α) → List α
  | 0, blocks => blocks.flatten
  | fuel + 1, blocks =>
    match blocks with
    | [] => []
    | [block] => block
    | blocks => mergeAll fuel (mergePairs less blocks)

/-- The blocks of `size` elements a list is made of; the last may be shorter. -/
def blocksOf (size : Nat) : Nat → List α → List (List α)
  | 0, _ => []
  | fuel + 1, xs => if xs.isEmpty then [] else xs.take size :: blocksOf size fuel (xs.drop size)

def blockSize : Nat := 20

def blockwise (xs : List α) : List α :=
  let blocks := (blocksOf blockSize xs.length xs).map (insertion less)
  mergeAll less blocks.length blocks

end BlockProgram.Order
