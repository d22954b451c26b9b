import InkBindings.Sorting.Merge
/-!
Sorting where two items may have no order. The list is cut into runs, and neighbours among these
are merged so that runs of a similar length meet. Items of which neither comes before the other keep
their order.
-/

namespace InkBindings.Sorting

structure PlacedRun (α : Type) where
  start : Nat
  items : List α
  /-- How often the list is halved before the end of the run is a bound between two parts. -/
  depth : Nat

/-- The runs so far, the last first, and the patience for merging them. -/
structure Progress (α : Type) where
  runs : List (PlacedRun α)
  patience : Nat

/-- How often a list is halved until two places, given by twice their offsets, are in two parts. -/
def boundDepth (size : Nat) : (fuel low high : Nat) → Nat
  | 0, _, _ => 0
  | fuel + 1, low, high =>
    if size ≤ low then boundDepth size fuel (2 * (low - size)) (2 * (high - size)) + 1
    else if size ≤ high then 1
    else boundDepth size fuel (2 * low) (2 * high) + 1

namespace Progress

variable {α : Type} (less? : α → α → Option Bool)

def items (p : Progress α) : List α := p.runs.reverse.flatMap (·.items)

def mergeLast (p : Progress α) : Attempt α (Progress α) :=
  match p.runs with
  | right :: left :: before =>
    match merge less? p.patience left.items right.items with
    | .merged items patience => .ok ⟨{ left with items := items } :: before, patience⟩
    | .stuck items => .error (Progress.items ⟨before, 0⟩ ++ items)
  | _ => .ok p

def mergeInner (p : Progress α) : Attempt α (Progress α) :=
  match p.runs with
  | last :: before => do
    let p ← Attempt.within [] last.items (mergeLast less? ⟨before, p.patience⟩)
    return { p with runs := last :: p.runs }
  | [] => .ok p

/-- Merges the last two runs as long as the bound between them lies deeper than `depth`. -/
def settle (depth : Nat) : (fuel : Nat) → Progress α → Attempt α (Progress α)
  | 0, p => .ok p
  | fuel + 1, p =>
    match p.runs with
    | _ :: left :: _ =>
      if depth < left.depth then mergeLast less? p >>= settle depth fuel else .ok p
    | _ => .ok p

/-- Adds a run after the last one. The middles of the two tell how deep the bound lies. -/
def add (size : Nat) (p : Progress α) (run : List α) : Attempt α (Progress α) :=
  match p.runs with
  | [] => .ok { p with runs := [⟨0, run, 0⟩] }
  | last :: _ => do
    let middle := 2 * last.start + last.items.length
    let depth := boundDepth size (size + 1) middle (middle + last.items.length + run.length)
    let p ← settle less? depth p.runs.length p
    match p.runs with
    | [] => return p
    | last :: before =>
      let next : PlacedRun α := ⟨last.start + last.items.length, run, 0⟩
      return { p with runs := next :: { last with depth := depth } :: before }

/-- Cuts the items into runs. Each has at least one item, so as many rounds suffice. -/
def addAll (size least : Nat) : (fuel : Nat) → Progress α → List α → Attempt α (Progress α)
  | 0, p, _ => .ok p
  | _ + 1, p, [] => .ok p
  | fuel + 1, p, items => do
    let (run, after) ← Attempt.within p.items [] (takeRun less? least items)
    let p ← Attempt.within [] (run ++ after) (p.add less? size run)
    addAll size least fuel p after

/-- Merges until one run is left. The last run waits if the one before the last two is shorter. -/
def mergeAll : (fuel : Nat) → Progress α → Attempt α (Progress α)
  | 0, p => .ok p
  | fuel + 1, p =>
    match p.runs with
    | last :: _ :: first :: _ =>
      (if first.items.length < last.items.length then mergeInner less? p else mergeLast less? p)
        >>= mergeAll fuel
    | _ => mergeLast less? p

end Progress

/-- Sorts the items, or leaves them in the order that was reached when two without an order were
compared. -/
def sort {α : Type} (less? : α → α → Option Bool) (items : List α) : Attempt α (List α) := do
  let size := items.length
  let p ← Progress.addAll less? size (leastRun size false) size ⟨[], Merging.worthwhile⟩ items
  return (← Progress.mergeAll less? p.runs.length p).items

end InkBindings.Sorting
