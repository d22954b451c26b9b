import InkBindings.Scale.Buffer
import InkBindings.Scale.Source
/-!
Compact integers. The two low bits of the first byte tell the mode: one, two or four bytes, or a
byte count in the six high bits and the number after it. Every number has one spelling, the
shortest.
-/

namespace InkBindings.Scale

namespace Compact

/-- Compact integers have at most 67 bytes after the first. -/
def bound : Nat := 2 ^ (8 * 67)

/-- The fewest bytes that hold a number, at least one. -/
def byteLength (n : Nat) : Nat := n.log2 / 8 + 1

/-- The bytes of a number below `bound`. -/
def encode (n : Nat) : Bytes :=
  if n < 2 ^ 6 then Bytes.ofNat 1 (4 * n)
  else if n < 2 ^ 14 then Bytes.ofNat 2 (4 * n + 1)
  else if n < 2 ^ 30 then Bytes.ofNat 4 (4 * n + 2)
  else
    let size := byteLength n
    Bytes.ofNat 1 (4 * (size - 4) + 3) ++ Bytes.ofNat size n

/-- Writes the bytes of a number below `bound`. The first byte of some modes is written alone. -/
def write (n : Nat) : EStateM EncodeFailure Buffer Unit := do
  if 2 ^ 6 ≤ n ∧ n < 2 ^ 30 then Buffer.write (encode n)
  else
    Buffer.writeByte ((encode n).headD 0)
    if 2 ^ 30 ≤ n then Buffer.write (encode n).tail

def encodeValue : Value → EStateM EncodeFailure Buffer Unit
  | .int n =>
    if n < 0 then throw (.value (.compactExpected (.int n)))
    else if bound ≤ n.toNat then throw (.value (.compactTooLarge n))
    else write n.toNat
  | v => throw (.value (.compactExpected v))

def decode (data : Source) (offset : Int) : Except DecodeFailure (Int × Int) := do
  let (tag, next) ← data.takeTag offset
  let head ← tag.integer
  match (head % 4).toNat with
  | 0 => return (head / 4, next)
  | 1 =>
    let (raw, next) ← data.takeBytes offset 2
    let n := Bytes.toNat raw / 4
    if n < 2 ^ 6 then throw (.bytes (.nonCanonical .twoByte))
    return (n, next)
  | 2 =>
    let (raw, next) ← data.takeBytes offset 4
    let n := Bytes.toNat raw / 4
    if n < 2 ^ 14 then throw (.bytes (.nonCanonical .fourByte))
    return (n, next)
  | _ =>
    let (taken, next) ← data.take next (head / 4 + 4)
    match taken.tags.getLast? with
    | none => throw .noByte
    | some last =>
      if last.is 0 then throw (.bytes (.nonCanonical .trailingZero))
      let n := Bytes.toNat (← taken.toBytes)
      if n < 2 ^ 30 then throw (.bytes (.nonCanonical .bigInteger))
      return (n, next)

end Compact
end InkBindings.Scale
