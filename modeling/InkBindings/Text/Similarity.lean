/-!
How much two words have in common: their longest common run, and so on before it and after it.
-/

namespace InkBindings.Text

/-- A run that two words share: where it begins in each, and its length. -/
structure CommonRun where
  left : Nat
  right : Nat
  size : Nat

def sharedLength : List Char → List Char → Nat
  | a :: as, b :: bs => if a = b then sharedLength as bs + 1 else 0
  | _, _ => 0

/-- The longest common run; of several, the first in the left word, then in the right one. -/
def longestRun (xs ys : List Char) : CommonRun :=
  let places := (List.range xs.length).flatMap fun i => (List.range ys.length).map (i, ·)
  places.foldl
    (fun best (i, j) =>
      let size := sharedLength (xs.drop i) (ys.drop j)
      if best.size < size then ⟨i, j, size⟩ else best)
    ⟨0, 0, 0⟩

/-- The characters that two words share. Each run found leaves a shorter left word on either side,
so its length bounds the depth. -/
def sharedWithin : (depth : Nat) → List Char → List Char → Nat
  | 0, _, _ => 0
  | depth + 1, xs, ys =>
    let run := longestRun xs ys
    if run.size = 0 then 0
    else
      sharedWithin depth (xs.take run.left) (ys.take run.right) + run.size +
        sharedWithin depth (xs.drop (run.left + run.size)) (ys.drop (run.right + run.size))

/-- Whether at least three fifths of the characters of two words are shared. -/
def isSimilar (word other : String) : Bool :=
  let xs := word.toList
  let ys := other.toList
  3 * (xs.length + ys.length) ≤ 10 * sharedWithin xs.length xs ys

end InkBindings.Text
