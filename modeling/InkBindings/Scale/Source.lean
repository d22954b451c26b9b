import InkBindings.Scale.Error
import InkBindings.Value.Order
/-!
What values are read from. Byte strings are made for it. A sequence of other values does as far as
its items stand for bytes, and what is taken out of it is again such a sequence.
-/

namespace InkBindings.Scale

/-- What stands at a place of the data: a byte, or a value in the place of one. -/
inductive Tag
  | byte (b : UInt8)
  | value (v : Value)

namespace Tag

def is (t : Tag) (n : UInt8) : Bool :=
  match t with
  | .byte b => b == n
  | .value v => v.equals (.int n.toNat)

def isHashable : Tag → Bool
  | .byte _ => true
  | .value v => v.isHashable

def text : Tag → String
  | .byte b => toString b.toNat
  | .value v => v.text

def integer? : Tag → Option Int
  | .byte b => some b.toNat
  | .value (.int n) => some n
  | .value (.bool b) => some (if b then 1 else 0)
  | .value _ => none

def integer (t : Tag) : Except DecodeFailure Int :=
  match t.integer? with
  | some n => .ok n
  | none => .error (.conversion .notConvertible)

def exceedsOne (t : Tag) : Except DecodeFailure Bool :=
  match t with
  | .byte b => .ok (decide (1 < b))
  | .value v =>
    match Value.less? (.int 1) v with
    | some exceeds => .ok exceeds
    | none => .error (.conversion .notConvertible)

def fault (t : Tag) (error : Int → DecodeError) : DecodeFailure :=
  match t.integer?, t with
  | some n, _ => .bytes (error n)
  | none, .value (.float _) | none, .value (.str _) => .conversion .notANumber
  | none, _ => .conversion .notConvertible

end Tag

/-- A stretch of the data: bytes, or what holds the values in their place. -/
inductive Stretch
  | bytes (b : Bytes)
  | value (v : Value)

namespace Stretch

def toValue : Stretch → Value
  | .bytes b => .bytes b
  | .value v => v

def toBytes : Stretch → Except DecodeFailure Bytes
  | .bytes b => .ok b
  | .value v =>
    match v.byteSource with
    | .ok source => .ok source.bytes
    | .error e => .error (.conversion e)

def tags : Stretch → List Tag
  | .bytes b => b.map .byte
  | .value v => (v.members?.getD []).map .value

def text : Stretch → Except DecodeFailure (Except Utf8.Fault String)
  | .bytes b | .value (.byteArray b) => .ok (Utf8.decode b)
  | .value _ => .error .noText

end Stretch

inductive Source
  | bytes (content : Array UInt8)
  | zeros (count : Nat)
  | byteArray (content : Array UInt8)
  | list (items : Array Value)
  | tuple (items : Array Value)
  | text (characters : Array Char)
  /-- So many entries, which have no places. -/
  | entries (count : Nat)
  | sizeless

namespace Source

def ofBytes (b : Bytes) : Source := .bytes b.toArray

instance : Coe Bytes Source := ⟨ofBytes⟩

def ofByteSource : ByteSource → Source
  | .zeros count => .zeros count
  | .content b => .ofBytes b

def ofValue (v : Value) : Source :=
  match v with
  | .byteArray b => .byteArray b.toArray
  | .list items => .list items.toArray
  | .tuple items => .tuple items.toArray
  | .str s => .text s.toList.toArray
  | .dict pairs => .entries pairs.length
  | v =>
    match v.byteContent? with
    | some b => .ofBytes b
    | none => .sizeless

def size? : Source → Option Nat
  | .bytes content | .byteArray content => some content.size
  | .list items | .tuple items => some items.size
  | .text characters => some characters.size
  | .zeros count | .entries count => some count
  | .sizeless => none

def size (data : Source) : Nat := data.size?.getD 0

def stretch (data : Source) (first last : Nat) : Except DecodeFailure Stretch :=
  match data with
  | .bytes content => .ok (.bytes (content.extract first last).toList)
  | .zeros _ => .ok (.bytes (List.replicate (last - first) 0))
  | .byteArray content => .ok (.value (.byteArray (content.extract first last).toList))
  | .list items => .ok (.value (.list (items.extract first last).toList))
  | .tuple items => .ok (.value (.tuple (items.extract first last).toList))
  | .text characters =>
    .ok (.value (.str (String.ofList (characters.extract first last).toList)))
  | .entries _ | .sizeless => .error (.conversion .notConvertible)

/-- Takes so many items; gives them and the offset after them. An offset below zero counts from the
end of the data, and so does one that a negative count leads to. -/
def take (data : Source) (offset count : Int) : Except DecodeFailure (Stretch × Int) :=
  match data.size? with
  | none => .error (.conversion .notConvertible)
  | some size =>
    if size < offset + count then .error (.bytes (.truncated count offset (size - offset)))
    else do
      let taken ← data.stretch (Bytes.place size offset) (Bytes.place size (offset + count))
      return (taken, offset + count)

def takeBytes (data : Source) (offset count : Int) : Except DecodeFailure (Bytes × Int) := do
  let (taken, next) ← data.take offset count
  return (← taken.toBytes, next)

def takeTag (data : Source) (offset : Int) : Except DecodeFailure (Tag × Int) := do
  let (taken, next) ← data.take offset 1
  match taken.tags with
  | [] => throw .noByte
  | tag :: _ => return (tag, next)

theorem take_ofBytes {b : Bytes} {offset count : Nat} (h : offset + count ≤ b.length) :
    take (ofBytes b) offset count =
      .ok (.bytes ((b.drop offset).take count), (offset + count : Nat)) := by
  have hle : offset ≤ b.length := Nat.le_trans (Nat.le_add_right offset count) h
  have hlt : ¬ ((b.length : Int) < offset + count) := by omega
  simp only [take, ofBytes, size?, stretch, List.size_toArray, hlt, if_false]
  rw [← Int.natCast_add, Bytes.place_ofNat hle, Bytes.place_ofNat h]
  simp [Bind.bind, Except.bind, Pure.pure, Except.pure]

end Source
end InkBindings.Scale
