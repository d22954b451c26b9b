import InkBindings.Bytes.Basic
/-!
JSON text in bytes. The encoding is told by a byte order mark or by where the zeros stand among
the first four bytes; without either it is UTF-8.
-/

namespace InkBindings.Json

inductive Encoding
  | utf8
  | utf8Marked
  | utf16 (bigEndian : Bool)
  | utf16Marked
  | utf32 (bigEndian : Bool)
  | utf32Marked
  deriving DecidableEq, Repr

namespace Encoding

def detect (b : Bytes) : Encoding :=
  if [0, 0, 0xfe, 0xff].isPrefixOf b || [0xff, 0xfe, 0, 0].isPrefixOf b then .utf32Marked
  else if [0xfe, 0xff].isPrefixOf b || [0xff, 0xfe].isPrefixOf b then .utf16Marked
  else if [0xef, 0xbb, 0xbf].isPrefixOf b then .utf8Marked
  else
    match b with
    | x :: y :: z :: w :: _ =>
      if x = 0 then if y = 0 then .utf32 true else .utf16 true
      else if y = 0 then if z = 0 && w = 0 then .utf32 false else .utf16 false
      else .utf8
    | [x, y] => if x = 0 then .utf16 true else if y = 0 then .utf16 false else .utf8
    | _ => .utf8

/-- The numbers that groups of `width` bytes write; nothing if some bytes are left over. -/
def units? (bigEndian : Bool) : (width fuel : Nat) → Bytes → Option (List Nat)
  | _, _, [] => some []
  | _, 0, _ => none
  | width, fuel + 1, b =>
    if b.length < width then none
    else
      let group := b.take width
      let n := Bytes.toNat (if bigEndian then group.reverse else group)
      (units? bigEndian width fuel (b.drop width)).map (n :: ·)

/-- A surrogate without its partner is replaced. -/
def replaceSurrogate (n : Nat) : Char :=
  if n.isValidChar then Char.ofNat n else '\ufffd'

def ofUnits16 : List Nat → List Char
  | [] => []
  | [n] => [replaceSurrogate n]
  | high :: low :: rest =>
    if 0xd800 ≤ high ∧ high < 0xdc00 ∧ 0xdc00 ≤ low ∧ low < 0xe000 then
      Char.ofNat (0x10000 + 0x400 * (high - 0xd800) + (low - 0xdc00)) :: ofUnits16 rest
    else replaceSurrogate high :: ofUnits16 (low :: rest)

/-- Surrogates written in UTF-8 are replaced too. -/
def replaceSurrogates8 : Bytes → Bytes
  | x :: y :: z :: rest =>
    if x = 0xed && 0xa0 ≤ y && y ≤ 0xbf && 0x80 ≤ z && z ≤ 0xbf then
      0xef :: 0xbf :: 0xbd :: replaceSurrogates8 rest
    else x :: replaceSurrogates8 (y :: z :: rest)
  | b => b

def decode8 (b : Bytes) : Option String :=
  Bytes.toText? (replaceSurrogates8 b)

def decode16 (bigEndian : Bool) (b : Bytes) : Option String :=
  (units? bigEndian 2 b.length b).map fun units => String.ofList (ofUnits16 units)

def decode32 (bigEndian : Bool) (b : Bytes) : Option String := do
  let units ← units? bigEndian 4 b.length b
  if units.all (· < 0x110000) then some (String.ofList (units.map replaceSurrogate)) else none

def decode? (b : Bytes) : Encoding → Option String
  | .utf8 => decode8 b
  | .utf8Marked => decode8 (b.drop 3)
  | .utf16 bigEndian => decode16 bigEndian b
  | .utf16Marked => decode16 ([0xfe, 0xff].isPrefixOf b) (b.drop 2)
  | .utf32 bigEndian => decode32 bigEndian b
  | .utf32Marked => decode32 ([0, 0, 0xfe, 0xff].isPrefixOf b) (b.drop 4)

end Encoding

/-- The text in bytes, if they are well-formed in their encoding. -/
def textOfBytes? (b : Bytes) : Option String :=
  (Encoding.detect b).decode? b

end InkBindings.Json
