import InkBindings.Sorting.Run
/-!
Merging two neighbouring runs. The shorter one is copied out, and items go into the gap from one
side: one by one as long as both runs have their turn, and by whole stretches where one of them
wins often in a row.
-/

namespace InkBindings.Sorting

/-- The side from which two runs are merged. -/
inductive Side
  | front
  | back
  deriving DecidableEq

/-- Items in the order of a side, put in the order in which they lie. -/
def Side.lying {α : Type} (side : Side) (items : List α) : List α :=
  match side with
  | .front => items
  | .back => items.reverse

/-- A merge under way: what is left of the runs, the items next to the side first, and what is
merged, the latest first. -/
structure Merging (α : Type) where
  left : List α
  right : List α
  merged : List α
  /-- How often in a row a run must win before items are taken by stretches. -/
  patience : Nat

/-- How a merge ends: with the items merged and what patience is left, or with the items as they
lie where two had no order. -/
inductive Ending (α : Type)
  | merged (items : List α) (patience : Nat)
  | stuck (items : List α)

/-- A stage of a merge that may be the last. -/
abbrev Stage (α : Type) := Except (Ending α)

namespace Merging

variable {α : Type} (less? : α → α → Option Bool) (side : Side)

/-- What is merged, together with items that follow it. -/
def followedBy (m : Merging α) (rest : List α) : List α :=
  match side with
  | .front => m.merged.reverse ++ rest
  | .back => rest.reverse ++ m.merged

/-- All items, with the run that was copied out put back into the gap. -/
def restored (m : Merging α) : List α :=
  match side with
  | .front => m.followedBy side (m.left ++ m.right)
  | .back => m.followedBy side (m.right ++ m.left)

/-- Ends the merge if a run is used up, or if one item of the run that was copied out is left: it
is known to come after the others. -/
def unlessOver (m : Merging α) : Stage α (Merging α) :=
  match side, m.left, m.right with
  | _, [], _ | _, _, [] => .error (.merged (m.restored side) m.patience)
  | .front, [_], _ => .error (.merged (m.followedBy side (m.right ++ m.left)) m.patience)
  | .back, _, [_] => .error (.merged (m.followedBy side (m.left ++ m.right)) m.patience)
  | _, _, _ => .ok m

def takeLeft (count : Nat) (m : Merging α) : Stage α (Merging α) :=
  unlessOver side
    { m with left := m.left.drop count, merged := (m.left.take count).reverse ++ m.merged }

def takeRight (count : Nat) (m : Merging α) : Stage α (Merging α) :=
  unlessOver side
    { m with right := m.right.drop count, merged := (m.right.take count).reverse ++ m.merged }

def answered {β : Type} (m : Merging α) (answer : Option β) : Stage α β :=
  match answer with
  | some b => .ok b
  | none => .error (.stuck (m.restored side))

/-- Whether the item of the right run that is next comes before that of the left run. -/
def rightFirst? (m : Merging α) : Option Bool :=
  match m.left, m.right with
  | x :: _, y :: _ => less? y x
  | _, _ => some false

/-- How many items of a run go before the first one that lies beyond, or after it from the back. -/
def stretch? (run : List α) (beyond? : α → Option Bool) : Option Nat :=
  let lying := (side.lying run).toArray
  match side with
  | .front => gallop? (atPlace? lying beyond?) lying.size 0
  | .back => (gallop? (atPlace? lying beyond?) lying.size (lying.size - 1)).map (lying.size - ·)

/-- How many items of the left run come before the next one of the right run. -/
def leftStretch? (m : Merging α) : Option Nat :=
  match m.right with
  | y :: _ => stretch? side m.left (less? y)
  | [] => some 0

/-- How many items of the right run come before the next one of the left run. -/
def rightStretch? (m : Merging α) : Option Nat :=
  match m.left with
  | x :: _ => stretch? side m.right fun y => (less? y x).map not
  | [] => some 0

/-- Takes items one by one until a run wins as often in a row as the patience says. -/
def oneByOne : (fuel leftWins rightWins : Nat) → Merging α → Stage α (Merging α)
  | 0, _, _, m => .ok m
  | fuel + 1, leftWins, rightWins, m => do
    if (← m.answered side (m.rightFirst? less?)) = (side = .front) then
      let m ← m.takeRight side 1
      if m.patience ≤ rightWins + 1 then return m
      oneByOne fuel 0 (rightWins + 1) m
    else
      let m ← m.takeLeft side 1
      if m.patience ≤ leftWins + 1 then return m
      oneByOne fuel (leftWins + 1) 0 m

/-- The length of a stretch that is worth looking for. -/
def worthwhile : Nat := 7

/-- Takes items by stretches until two in a row are short. Each round makes the patience less. -/
def byStretches : (fuel : Nat) → Merging α → Stage α (Merging α)
  | 0, m => .ok m
  | fuel + 1, m => do
    let m := { m with patience := max 1 (m.patience - 1) }
    let fromLeft ← m.answered side (m.leftStretch? less? side)
    let m ← m.takeLeft side fromLeft
    let m ← m.takeRight side 1
    let fromRight ← m.answered side (m.rightStretch? less? side)
    let m ← m.takeRight side fromRight
    let m ← m.takeLeft side 1
    if worthwhile ≤ fromLeft ∨ worthwhile ≤ fromRight then byStretches fuel m else return m

/-- Takes items until the merge is over. Each change of manner makes the patience greater. -/
def run : (fuel : Nat) → Merging α → Stage α (Merging α)
  | 0, m => .ok m
  | fuel + 1, m => do
    let m ← oneByOne less? side (m.left.length + m.right.length) 0 0 m
    let m ← byStretches less? side (m.left.length + m.right.length)
      { m with patience := m.patience + 1 }
    run fuel { m with patience := m.patience + 1 }

/-- Merges all. At least one item is taken in each round, so the rounds suffice. -/
def finish (m : Stage α (Merging α)) : Ending α :=
  match m >>= fun m => run less? side (m.left.length + m.right.length) m with
  | .error e => e
  | .ok m => .merged (m.restored side) m.patience

end Merging

def Ending.within {α : Type} (before after : List α) : Ending α → Ending α
  | .merged items patience => .merged (before ++ items ++ after) patience
  | .stuck items => .stuck (before ++ items ++ after)

variable {α : Type} (less? : α → α → Option Bool)

/-- Merges two neighbouring runs that overlap: from the front if the left one is the shorter one or
both are equally long. The item at the side is known to be of the other run. -/
def mergeOverlap (patience : Nat) (left right : List α) : Ending α :=
  if left.length ≤ right.length then
    Merging.finish less? .front (Merging.takeRight .front 1 ⟨left, right, [], patience⟩)
  else
    Merging.finish less? .back
      (Merging.takeLeft .back 1 ⟨left.reverse, right.reverse, [], patience⟩)

/-- Merges two neighbouring runs. What comes before the right run stays where it is, and so does
what comes after the left run. -/
def merge (patience : Nat) (left right : List α) : Ending α :=
  let overlap? : Option (Nat × Nat) := do
    let y ← right.head?
    let before ← gallop? (atPlace? left.toArray (less? y)) left.length 0
    match (left.drop before).getLast? with
    | none => return (before, 0)
    | some x =>
      let beyond? (y : α) : Option Bool := (less? y x).map not
      return (before, ← gallop? (atPlace? right.toArray beyond?) right.length (right.length - 1))
  match overlap? with
  | none => .stuck (left ++ right)
  | some (_, 0) => .merged (left ++ right) patience
  | some (before, count) =>
    (mergeOverlap less? patience (left.drop before) (right.take count)).within
      (left.take before) (right.drop count)

end InkBindings.Sorting
