/-!
How far calls may be nested. Reading, writing and naming follow what they are given from call to
call, and are given up where there is no room for the next one.
-/

namespace InkBindings

/-- How many calls may still be inside one another; any number if there is no bound. -/
structure Room where
  calls? : Option Nat
  deriving DecidableEq, Repr

namespace Room

def unbounded : Room := ⟨none⟩

/-- What a stack of the usual size leaves to an operation. -/
def usual : Room := ⟨some 993⟩

def holds (room : Room) (calls : Nat) : Bool := room.calls?.all (calls ≤ ·)

def inside (room : Room) (calls : Nat) : Room := ⟨room.calls?.map (· - calls)⟩

@[simp] theorem holds_unbounded (calls : Nat) : unbounded.holds calls = true := rfl

@[simp] theorem inside_unbounded (calls : Nat) : unbounded.inside calls = unbounded := rfl

theorem holds_of_le {room : Room} {calls more : Nat} (h : room.holds more = true)
    (hle : calls ≤ more) : room.holds calls = true := by
  obtain ⟨_ | bound⟩ := room
  · rfl
  · simp only [holds, Option.all_some, decide_eq_true_eq] at h ⊢
    omega

theorem holds_inside {room : Room} {outer inner : Nat} (h : room.holds (outer + inner) = true) :
    (room.inside outer).holds inner = true := by
  obtain ⟨_ | bound⟩ := room
  · rfl
  · simp only [holds, inside, Option.map_some, Option.all_some, decide_eq_true_eq] at h ⊢
    omega

end Room
end InkBindings
