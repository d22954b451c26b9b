/-!
Finding a place by questions that may have no answer. The question is whether a place lies beyond
the one that is looked for; after one that does, all do.
-/

namespace InkBindings.Sorting

/-- The first place from `low` on that lies beyond, or else `high`, found by halving; nothing if a
question has no answer. -/
def bisect? (beyond? : Nat → Option Bool) (low high : Nat) : Option Nat :=
  if low < high then
    let middle := low + (high - low) / 2
    match beyond? middle with
    | none => none
    | some true => bisect? beyond? low middle
    | some false => bisect? beyond? (middle + 1) high
  else some low
termination_by high - low

/-- Takes steps of 1, 3, 7 and so on as long as the answer is yes. Gives the last step for which it
was, and the first for which it was not, or the limit. -/
def stride? (holds? : Nat → Option Bool) (limit last step : Nat) : Option (Nat × Nat) :=
  if step < limit then
    match holds? step with
    | none => none
    | some true => stride? holds? limit step (2 * step + 1)
    | some false => some (last, step)
  else some (last, limit)
termination_by limit - step

/-- The first of `size` places that lies beyond, searched in growing steps from `hint` on and then
by halving. -/
def gallop? (beyond? : Nat → Option Bool) (size hint : Nat) : Option Nat := do
  if ← beyond? hint then
    let (last, step) ← stride? (fun s => beyond? (hint - s)) (hint + 1) 0 1
    bisect? beyond? (hint + 1 - step) (hint - last)
  else
    let (last, step) ← stride? (fun s => (beyond? (hint + s)).map not) (size - hint) 0 1
    bisect? beyond? (hint + last + 1) (hint + step)

/-- A question about items as one about their places. -/
def atPlace? {α : Type} (items : Array α) (beyond? : α → Option Bool) (i : Nat) : Option Bool :=
  match items[i]? with
  | some x => beyond? x
  | none => some true

end InkBindings.Sorting
