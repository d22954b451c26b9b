import InkBindings.Sorting.Search
/-!
Runs: stretches of a list that are in order already, or in strictly reverse order. A short one is
made longer by putting the items after it in their places.
-/

namespace InkBindings.Sorting

/-- Sorting goes on until two items without an order are compared. Then it ends with the items as
it leaves them. -/
abbrev Attempt (α : Type) := Except (List α)

/-- An attempt on a part of the items, between others. -/
def Attempt.within {α β : Type} (before after : List α) (a : Attempt α β) : Attempt α β :=
  a.mapError fun left => before ++ left ++ after

variable {α : Type} (less? : α → α → Option Bool)

/-- How far a run goes on in which each item comes before the last one or not, as `falling` says;
nothing if two items have no order. -/
def runLength? (falling : Bool) (last : α) : List α → Option Nat
  | [] => some 0
  | x :: rest =>
    match less? x last with
    | none => none
    | some b => if b = falling then (runLength? falling x rest).map (· + 1) else some 0

/-- The length of the run at the front and whether it is falling. -/
def firstRun? : List α → Option (Nat × Bool)
  | [] => some (0, false)
  | [_] => some (1, false)
  | x :: y :: rest => do
    let falling ← less? y x
    return ((← runLength? less? falling y rest) + 2, falling)

/-- Puts the items in their places among those that are sorted, each after the last that it does
not come before. -/
def insertAll (sorted : List α) : List α → Attempt α (List α)
  | [] => .ok sorted
  | x :: rest =>
    match bisect? (atPlace? sorted.toArray (less? x)) 0 sorted.length with
    | none => .error (sorted ++ x :: rest)
    | some i => insertAll (sorted.take i ++ x :: sorted.drop i) rest

/-- The run at the front, sorted and `least` long where there are so many items, and the items
after it. -/
def takeRun (least : Nat) (items : List α) : Attempt α (List α × List α) :=
  match firstRun? less? items with
  | none => .error items
  | some (length, falling) => do
    let found := if falling then (items.take length).reverse else items.take length
    let more := items.drop length
    let after := more.drop (least - length)
    let run ← Attempt.within [] after (insertAll less? found (more.take (least - length)))
    return (run, after)

/-- The size of a list halved until it is less than 64, and one more if there was a remainder: runs
of this length make up a power of two, or a little less. -/
def leastRun (size : Nat) (remainder : Bool) : Nat :=
  if size < 64 then size + (if remainder then 1 else 0)
  else leastRun (size / 2) (remainder || size % 2 = 1)
termination_by size

end InkBindings.Sorting
