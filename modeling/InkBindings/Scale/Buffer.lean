import InkBindings.Scale.Error
/-!
What values are written to. A buffer grows at its end. Other values can stand in the place of one,
and take less or nothing.
-/

namespace InkBindings.Scale

structure Buffer where
  content : Array UInt8
  takesByte : Bool := true
  takesBytes : Bool := true

namespace Buffer

def ofBytes (b : Bytes) : Buffer := { content := b.toArray }

def empty : Buffer := ofBytes []

/-- A value in the place of a buffer. A byte string that cannot change is copied as it grows. -/
def ofValue (v : Value) : Buffer :=
  match v with
  | .byteArray _ | .list _ => empty
  | v => { empty with takesByte := false, takesBytes := v.byteContent?.isSome }

def bytes (b : Buffer) : Bytes := b.content.toList

def writeByte (x : UInt8) : EStateM EncodeFailure Buffer Unit := do
  if (← get).takesByte then modify fun b => { b with content := b.content.push x }
  else throw (.buffer .oneByte)

def write (xs : Bytes) : EStateM EncodeFailure Buffer Unit := do
  if (← get).takesBytes then modify fun b => { b with content := b.content ++ xs }
  else throw (.buffer .bytes)

@[simp] theorem bytes_ofBytes (b : Bytes) : (ofBytes b).bytes = b := by
  simp [bytes, ofBytes]

theorem writeByte_ofBytes (b : Bytes) (x : UInt8) :
    (writeByte x).run (ofBytes b) = .ok () (ofBytes (b ++ [x])) := by
  change EStateM.Result.ok () { ofBytes b with content := b.toArray.push x } = _
  simp [ofBytes]

theorem write_ofBytes (b xs : Bytes) :
    (write xs).run (ofBytes b) = .ok () (ofBytes (b ++ xs)) := by
  change EStateM.Result.ok () { ofBytes b with content := b.toArray ++ xs } = _
  simp [ofBytes]

end Buffer

/-! ### A buffer that only grows

What is written does not depend on what the buffer holds. -/

/-- The computation succeeds on every buffer, and leaves these bytes behind what was there. -/
def Writes (write : EStateM EncodeFailure Buffer Unit) (b : Bytes) : Prop :=
  ∀ before, write.run (.ofBytes before) = .ok () (.ofBytes (before ++ b))

namespace Writes
variable {first second : EStateM EncodeFailure Buffer Unit} {a b : Bytes}

theorem nothing : Writes (pure ()) [] := by
  intro before
  rw [List.append_nil]
  rfl

theorem byte (x : UInt8) : Writes (Buffer.writeByte x) [x] :=
  fun before => Buffer.writeByte_ofBytes before x

theorem bytes (b : Bytes) : Writes (Buffer.write b) b :=
  fun before => Buffer.write_ofBytes before b

theorem append (h1 : Writes first a) (h2 : Writes second b) :
    Writes (do first; second) (a ++ b) := by
  intro before
  have hrun := h1 before
  change (EStateM.bind first fun _ => second) (.ofBytes before) = _
  simp only [EStateM.run] at hrun
  simp only [EStateM.bind, hrun]
  rw [← List.append_assoc]
  exact h2 (before ++ a)

/-- A computation writes one thing only. -/
theorem unique (h1 : Writes first a) (h2 : Writes first b) : a = b := by
  have h := (h1 []).symm.trans (h2 [])
  have hbytes := congrArg (fun
    | EStateM.Result.ok _ buffer => buffer.bytes
    | .error _ buffer => buffer.bytes) h
  simpa using hbytes

end Writes

end InkBindings.Scale
